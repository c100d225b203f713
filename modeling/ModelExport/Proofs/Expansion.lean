import ModelExport.Proofs.Conversion

/-!
# Proofs/Expansion — how an expansion is wired to its operator

The results of an expansion take the names of the operator's outputs one after another, and what
writes a result is renamed with it; what reads it is not.  After all of them a name that was written
is written as `carried` says (`writes_named_iff`).  So an expansion whose outer names are new stays
wired exactly if no result is taken twice, each is written once, and none is read inside
(`expansion_wired_iff`).
-/

namespace ModelExport

open List

variable {x y : String} {results : List (String × List Variable)}

/-! ## Names that are written and read -/

def OpNode.Writes (op : OpNode) (x : String) : Prop := .str x ∈ op.written

def OpNode.Reads (op : OpNode) (x : String) : Prop := ∃ s ∈ op.inputs, .str x ∈ s.2.given

namespace SourceGraph

variable (g : SourceGraph)

def Writes (x : String) : Prop := ∃ e ∈ g.nodes, e.2.Writes x

/-- **Exactly one node writes a name.** -/
def WrittenOnce (x : String) : Prop := ∃! i : Nat, ∃ e ∈ g.nodes[i]?, e.2.Writes x

/-- A name comes from outside, as an input or a parameter. -/
def Provides (x : String) : Prop := x ∈ g.inputs.map Terminal.name ∨ x ∈ g.weights.map Prod.fst

/-- **Every name that is read** comes from outside or is written. -/
def Closed : Prop := ∀ e ∈ g.nodes, ∀ x, e.2.Reads x → g.Provides x ∨ g.Writes x

/-- **Every outer name is written once**, and every name that is read comes from somewhere. -/
def Wired (takings : List (String × String)) : Prop :=
  (∀ q ∈ takings, g.WrittenOnce q.2) ∧ g.Closed

end SourceGraph

/-! ## Results and the names they take -/

/-- The name of an output of an operator. -/
def OpNode.outerName (op : OpNode) (slot : String) (i : Nat) : String :=
  match op.outputAt slot i with
  | .ok (.str x) => x
  | _ => ""

/-- **The names that results take**: each result with the name of the output in its place. -/
def OpNode.takings (op : OpNode) (results : List (String × List Variable)) : List (String × String) :=
  results.flatMap fun s => s.2.zipIdx.map fun v => (v.1.name, op.outerName s.1 v.2)

/-- Every result has an output in its place. -/
def OpNode.Places (op : OpNode) (results : List (String × List Variable)) : Prop :=
  ∀ s ∈ results, ∀ v ∈ s.2.zipIdx, op.outputAt s.1 v.2 = .ok (.str (op.outerName s.1 v.2))

/-- **What an expansion gives**: results, and a graph that has just them as outputs. -/
structure Expansion where
  results : List (String × List Variable)
  graph : SourceGraph
  plain : ∀ e ∈ graph.nodes, e.2.Plain
  outputs : graph.outputs.map Terminal.name = results.flatMap fun s => s.2.map Variable.name

/-- The name that a written name is in the end. -/
def carried (takings : List (String × String)) (x : String) : String :=
  takings.foldl (fun x q => if x = q.1 then q.2 else x) x

def OpNode.named (takings : List (String × String)) (op : OpNode) : OpNode :=
  takings.foldl (fun op q => op.renameOutput (.str q.1) (.str q.2)) op

/-! ## One result -/

section OneResult

variable {op : OpNode} {old new : String}

theorem replaceName_strs (old new : String) (xs : List String) :
    replaceName (.str old) (.str new) (.strs xs) =
      .strs (xs.map fun x => if x = old then new else x) := by
  simp only [replaceName, Value.strs, map_map]
  refine congrArg Value.list (map_congr_left fun x _ => ?_)
  simp only [Function.comp, same_str_str, beq_iff_eq]
  split <;> rfl

instance plain_renameOutput [hop : op.Plain] : (op.renameOutput (.str old) (.str new)).Plain where
  names := by
    refine forall_mem_map.2 fun s hs => ?_
    obtain ⟨xs, hxs⟩ := hop.names s hs
    exact ⟨_, by rw [hxs]; exact replaceName_strs old new xs⟩

/-- **What an operator writes** after one result has been named. -/
theorem writes_renameOutput_iff [hop : op.Plain] :
    (op.renameOutput (.str old) (.str new)).Writes y ↔
      ∃ x, op.Writes x ∧ (if x = old then new else x) = y := by
  simp only [OpNode.Writes, OpNode.written, OpNode.renameOutput, flatMap_map, mem_flatMap]
  constructor
  · rintro ⟨s, hs, hy⟩
    obtain ⟨xs, hxs⟩ := hop.names s hs
    rw [hxs, replaceName_strs, Value.given_strs] at hy
    obtain ⟨x, hx, hxy⟩ := mem_map.1 (map_map ▸ hy)
    refine ⟨x, ⟨s, hs, ?_⟩, Value.str.inj hxy⟩
    rw [hxs, Value.given_strs]
    exact mem_map_of_mem hx
  · rintro ⟨x, ⟨s, hs, hx⟩, rfl⟩
    refine ⟨s, hs, ?_⟩
    obtain ⟨xs, hxs⟩ := hop.names s hs
    rw [hxs, Value.given_strs] at hx
    obtain ⟨z, hz, hzx⟩ := mem_map.1 hx
    obtain rfl := Value.str.inj hzx
    rw [hxs, replaceName_strs, Value.given_strs]
    exact mem_map_of_mem (mem_map_of_mem (f := fun x => if x = old then new else x) hz)

end OneResult

/-! ## All results -/

section AllResults

variable {takings : List (String × String)} {op : OpNode}

theorem named_cons (q : String × String) :
    op.named (q :: takings) = (op.renameOutput (.str q.1) (.str q.2)).named takings := rfl

theorem carried_cons (q : String × String) (x : String) :
    carried (q :: takings) x = carried takings (if x = q.1 then q.2 else x) := rfl

/-- **What an operator writes** after all results have been named. -/
theorem writes_named_iff [op.Plain] :
    (op.named takings).Writes y ↔ ∃ x, op.Writes x ∧ carried takings x = y := by
  induction takings generalizing op with
  | nil => simp [OpNode.named, carried]
  | cons q takings ih =>
    rw [named_cons, ih]
    simp only [writes_renameOutput_iff, carried_cons]
    constructor
    · rintro ⟨_, ⟨x, hx, rfl⟩, hy⟩
      exact ⟨x, hx, hy⟩
    · rintro ⟨x, hx, hy⟩
      exact ⟨_, ⟨x, hx, rfl⟩, hy⟩

theorem reads_named_iff : (op.named takings).Reads x ↔ op.Reads x := by
  induction takings generalizing op with
  | nil => exact Iff.rfl
  | cons q takings ih => rw [named_cons, ih]; exact Iff.rfl

/-- A name that is no result stays. -/
theorem carried_of_not_mem (h : x ∉ takings.map Prod.fst) : carried takings x = x := by
  induction takings with
  | nil => rfl
  | cons q takings ih =>
    obtain ⟨hq, htakings⟩ := not_or.1 (mt mem_cons.2 h)
    rw [carried_cons, if_neg hq, ih htakings]

/-- Outer names that are no results themselves. -/
def Apart (takings : List (String × String)) : Prop :=
  ∀ q ∈ takings, q.2 ∉ takings.map Prod.fst

/-- A result takes the first name that it is given. -/
theorem carried_of_mem (hapart : Apart takings) (h : x ∈ takings.map Prod.fst) :
    ∃ q ∈ takings, q.1 = x ∧ carried takings x = q.2 := by
  induction takings with
  | nil => exact absurd h not_mem_nil
  | cons q takings ih =>
    have hlater : ∀ p ∈ q :: takings, p.2 ∉ takings.map Prod.fst :=
      fun p hp hmem => hapart p hp (mem_cons_of_mem _ hmem)
    rw [carried_cons]
    by_cases hx : x = q.1
    · refine ⟨q, mem_cons_self, hx.symm, ?_⟩
      rw [if_pos hx, carried_of_not_mem (hlater q mem_cons_self)]
    · obtain ⟨p, hp, hpx, hcarried⟩ := ih (fun p hp => hlater p (mem_cons_of_mem _ hp))
        ((mem_cons.1 h).resolve_left hx)
      exact ⟨p, mem_cons_of_mem _ hp, hpx, by rw [if_neg hx, hcarried]⟩

end AllResults

/-! ## The terminals -/

/-- The first terminal of a name gives it up for another. -/
theorem renameTerminal_perm {old new : String} {ts : List Terminal} (h : old ∈ ts.map Terminal.name) :
    ∃ ts', renameTerminal old new ts = some ts' ∧
      (ts'.map Terminal.name).Perm (new :: (ts.map Terminal.name).erase old) := by
  induction ts with
  | nil => exact absurd h not_mem_nil
  | cons t ts ih =>
    rw [renameTerminal]
    by_cases ht : t.name = old
    · refine ⟨{ t with name := new } :: ts, by simp [ht], ?_⟩
      simp [ht]
    · have hold : old ∈ ts.map Terminal.name := by
        simpa [Ne.symm ht] using h
      obtain ⟨ts', hts', hperm⟩ := ih hold
      refine ⟨t :: ts', by simp [ht, hts'], ?_⟩
      rw [map_cons, map_cons, erase_cons_tail (by simpa using ht)]
      exact (hperm.cons _).trans (List.Perm.swap _ _ _)

/-- **Naming all results never fails** as long as each of them is still among the outputs: what one
result takes away from the outputs, no later one needs. -/
theorem foldlM_renameResult {takings : List (String × String)} {g : SourceGraph}
    (h : (takings.map Prod.fst).Subperm (g.outputs.map Terminal.name)) :
    ∃ outputs, takings.foldlM (fun g q => renameResult g q.1 (.str q.2)) g =
      .ok { g with outputs, nodes := g.nodes.map fun e => (e.1, e.2.named takings) } := by
  induction takings generalizing g with
  | nil => exact ⟨g.outputs, by simp [OpNode.named]; rfl⟩
  | cons q takings ih =>
    have hmem : q.1 ∈ g.outputs.map Terminal.name := h.subset mem_cons_self
    obtain ⟨ts, hts, hperm⟩ := renameTerminal_perm hmem
    have hlater : (takings.map Prod.fst).Subperm (ts.map Terminal.name) := by
      have herase := (subperm_cons _).1 (h.trans (perm_cons_erase hmem).subperm)
      exact (herase.trans (sublist_cons_self _ _).subperm).trans hperm.symm.subperm
    have hstep : renameResult g q.1 (.str q.2) = .ok { g with
        outputs := ts
        nodes := g.nodes.map fun e => (e.1, e.2.renameOutput (.str q.1) (.str q.2)) } := by
      unfold renameResult
      rw [show renameTerminal q.1 (Value.str q.2).plain g.outputs = some ts from hts]
    obtain ⟨outputs, hrest⟩ := ih (g := { g with
      outputs := ts
      nodes := g.nodes.map fun e => (e.1, e.2.renameOutput (.str q.1) (.str q.2)) }) hlater
    refine ⟨outputs, ?_⟩
    rw [foldlM_cons, hstep]
    refine hrest.trans ?_
    simp only [map_map]
    rfl

theorem nameResults_eq {op : OpNode} (h : op.Places results) (g : SourceGraph) : nameResults op results g =
      (op.takings results).foldlM (fun g q => renameResult g q.1 (.str q.2)) g := by
  have hslot : ∀ (slot : String) (vars : List Variable) (i : Nat) (g : SourceGraph),
      (∀ v ∈ vars.zipIdx i, op.outputAt slot v.2 = .ok (.str (op.outerName slot v.2))) →
      nameSlot op slot i vars g = ((vars.zipIdx i).map fun v =>
        (v.1.name, op.outerName slot v.2)).foldlM (fun g q => renameResult g q.1 (.str q.2)) g := by
    intro slot vars
    induction vars with
    | nil => exact fun _ _ _ => rfl
    | cons v vars ih =>
      intro i g hplaces
      rw [zipIdx_cons] at hplaces ⊢
      obtain ⟨hv, hvars⟩ := forall_mem_cons.1 hplaces
      rw [nameSlot, hv, map_cons, foldlM_cons]
      change (renameResult g v.name _ >>= _) = _
      cases renameResult g v.name (.str (op.outerName slot i)) with
      | error s => rfl
      | ok g => exact ih (i + 1) g hvars
  induction results generalizing g with
  | nil => rfl
  | cons s results ih =>
    obtain ⟨hs, hresults⟩ := forall_mem_cons.1 h
    rw [nameResults, hslot s.1 s.2 0 g hs, OpNode.takings, flatMap_cons, foldlM_append]
    cases ((s.2.zipIdx.map fun v => (v.1.name, op.outerName s.1 v.2)).foldlM
        (fun g q => renameResult g q.1 (.str q.2)) g) with
    | error s => rfl
    | ok g => exact ih hresults g

/-! ## Wiring -/

section Wiring

variable {g : SourceGraph} {takings : List (String × String)} {outputs : List Terminal}

def SourceGraph.named (g : SourceGraph) (takings : List (String × String)) (outputs : List Terminal) :
    SourceGraph :=
  { g with outputs, nodes := g.nodes.map fun e => (e.1, e.2.named takings) }

theorem provides_named_iff : (g.named takings outputs).Provides x ↔ g.Provides x := Iff.rfl

theorem graph_writes_named_iff (hplain : ∀ e ∈ g.nodes, e.2.Plain) :
    (g.named takings outputs).Writes y ↔ ∃ x, g.Writes x ∧ carried takings x = y := by
  constructor
  · rintro ⟨_, hmem, hy⟩
    obtain ⟨e, he, rfl⟩ := mem_map.1 hmem
    have := hplain e he
    obtain ⟨x, hx, hxy⟩ := writes_named_iff.1 hy
    exact ⟨x, ⟨e, he, hx⟩, hxy⟩
  · rintro ⟨x, ⟨e, he, hx⟩, hxy⟩
    have := hplain e he
    exact ⟨_, mem_map_of_mem he, writes_named_iff.2 ⟨x, hx, hxy⟩⟩

theorem writtenOnce_named_iff (hplain : ∀ e ∈ g.nodes, e.2.Plain) :
    (g.named takings outputs).WrittenOnce y ↔
      ∃! i : Nat, ∃ e ∈ g.nodes[i]?, ∃ x, e.2.Writes x ∧ carried takings x = y := by
  refine existsUnique_congr fun i => ?_
  simp only [SourceGraph.named, getElem?_map, Option.mem_def, Option.map_eq_some_iff]
  constructor
  · rintro ⟨_, ⟨e, he, rfl⟩, hy⟩
    have := hplain e (mem_of_getElem? he)
    exact ⟨e, he, writes_named_iff.1 hy⟩
  · rintro ⟨e, he, hx⟩
    have := hplain e (mem_of_getElem? he)
    exact ⟨_, ⟨e, he, rfl⟩, writes_named_iff.2 hx⟩

theorem closed_named_iff (hplain : ∀ e ∈ g.nodes, e.2.Plain) :
    (g.named takings outputs).Closed ↔ ∀ e ∈ g.nodes, ∀ x, e.2.Reads x →
      g.Provides x ∨ ∃ y, g.Writes y ∧ carried takings y = x := by
  simp only [SourceGraph.Closed, graph_writes_named_iff hplain, provides_named_iff]
  simp only [SourceGraph.named, forall_mem_map, reads_named_iff]

/-- Outer names that the expansion does not know yet, each for one output. -/
structure New (g : SourceGraph) (takings : List (String × String)) : Prop where
  distinct : (takings.map Prod.snd).Nodup
  apart : Apart takings
  unwritten : ∀ q ∈ takings, ¬ g.Writes q.2

/-- What is written becomes an outer name only by being its result. -/
theorem New.eq_of_carried (h : New g takings) {q : String × String} (hq : q ∈ takings) (hx : g.Writes x)
    (hcarried : carried takings x = q.2) : x = q.1 := by
  by_cases hmem : x ∈ takings.map Prod.fst
  · obtain ⟨p, hp, rfl, hp'⟩ := carried_of_mem h.apart hmem
    have hpq : p = q := inj_on_of_nodup_map h.distinct hp hq (hp'.symm.trans hcarried)
    rw [hpq]
  · rw [carried_of_not_mem hmem] at hcarried
    exact absurd (hcarried ▸ hx) (h.unwritten q hq)

theorem New.carried_eq (h : New g takings) (hresults : (takings.map Prod.fst).Nodup)
    {q : String × String} (hq : q ∈ takings) : carried takings q.1 = q.2 := by
  obtain ⟨p, hp, hpq, hcarried⟩ := carried_of_mem h.apart (mem_map_of_mem hq)
  rw [hcarried, inj_on_of_nodup_map hresults hp hq hpq]

/-- Names that come out as they should belong to different results. -/
theorem New.nodup_results (h : New g takings) (hcarried : ∀ q ∈ takings, carried takings q.1 = q.2) :
    (takings.map Prod.fst).Nodup := by
  refine List.Nodup.of_map (carried takings) ?_
  rw [map_map, show takings.map (carried takings ∘ Prod.fst) = takings.map Prod.snd from
    map_congr_left hcarried]
  exact h.distinct

/-- **Outer names are written and the graph stays closed** under the plain conditions on results. -/
theorem New.wired_iff (h : New g takings) (hplain : ∀ e ∈ g.nodes, e.2.Plain) (hclosed : g.Closed) :
    (g.named takings outputs).Wired takings ↔
      (takings.map Prod.fst).Nodup ∧ (∀ q ∈ takings, g.WrittenOnce q.1) ∧
        ∀ q ∈ takings, ∀ e ∈ g.nodes, e.2.Reads q.1 → g.Provides q.1 := by
  simp only [SourceGraph.Wired, closed_named_iff hplain, writtenOnce_named_iff hplain]
  -- what a node writes under the name of a result is the result
  have hresult : (∀ q ∈ takings, carried takings q.1 = q.2) → ∀ q ∈ takings, ∀ i : Nat,
      (∃ e ∈ g.nodes[i]?, ∃ x, e.2.Writes x ∧ carried takings x = q.2) ↔
        ∃ e ∈ g.nodes[i]?, e.2.Writes q.1 := by
    intro hcarried q hq i
    refine exists_congr fun e => and_congr_right fun he => ?_
    constructor
    · rintro ⟨x, hx, hxq⟩
      exact h.eq_of_carried hq ⟨e, mem_of_getElem? he, hx⟩ hxq ▸ hx
    · exact fun hx => ⟨q.1, hx, hcarried q hq⟩
  constructor
  · rintro ⟨honce, hreads⟩
    have hcarried : ∀ q ∈ takings, carried takings q.1 = q.2 := by
      intro q hq
      obtain ⟨i, ⟨e, he, x, hx, hxq⟩, -⟩ := honce q hq
      exact h.eq_of_carried hq ⟨e, mem_of_getElem? he, hx⟩ hxq ▸ hxq
    refine ⟨h.nodup_results hcarried, fun q hq => ?_, fun q hq e he hread => ?_⟩
    · exact (existsUnique_congr (hresult hcarried q hq)).1 (honce q hq)
    · refine (hreads e he q.1 hread).resolve_right ?_
      rintro ⟨y, -, hyq⟩
      by_cases hmem : y ∈ takings.map Prod.fst
      · obtain ⟨p, hp, -, hyp⟩ := carried_of_mem h.apart hmem
        exact h.apart p hp (hyp.symm.trans hyq ▸ mem_map_of_mem hq)
      · rw [carried_of_not_mem hmem] at hyq
        exact hmem (hyq ▸ mem_map_of_mem hq)
  · rintro ⟨hresults, honce, hreads⟩
    have hcarried : ∀ q ∈ takings, carried takings q.1 = q.2 := fun q hq => h.carried_eq hresults hq
    refine ⟨fun q hq => ?_, fun e he x hread => ?_⟩
    · exact (existsUnique_congr (hresult hcarried q hq)).2 (honce q hq)
    · by_cases hmem : x ∈ takings.map Prod.fst
      · obtain ⟨q, hq, rfl⟩ := mem_map.1 hmem
        exact Or.inl (hreads q hq e he hread)
      · exact (hclosed e he x hread).imp_right fun hx => ⟨x, hx, carried_of_not_mem hmem⟩

end Wiring

/-! ## Expansions of fragments -/

/-- The results of a fragment in a scope, and its graph before they are named. -/
def Fragment.unnamed (f : Fragment) (stand : List Variable) (scope : String) :
    Except Fault (List (String × List Variable) × SourceGraph) := do
  let f := f.inScope scope
  let start : Block := { vars := [], ops := [] }
  let block := f.addTo (stand.foldl Block.declare start)
  let results ← graph.liftSlip (f.resultVars block)
  let feeds := stand.map Variable.name
  let outputs := (results.map Prod.snd).flatten
  let p ← (ProgramEdit.rebuild feeds (outputs.map Variable.name)).run { global := block }
  let g ← graph.liftSlip (SourceGraph.ofProgram p (.strs feeds) (.ok outputs))
  .ok (results, g)

theorem Fragment.graph_eq (f : Fragment) (op : OpNode) (stand : List Variable) (scope : String) :
    f.graph op stand scope =
      f.unnamed stand scope >>= fun x => graph.liftSlip (nameResults op x.1 x.2) := by
  simp only [Fragment.graph, Fragment.unnamed, bind_assoc]
  rfl

theorem Fragment.liftSlip_ok {α : Type} {x : Except Slip α} {a : α} (h : graph.liftSlip x = .ok a) :
    x = .ok a := by
  cases x with
  | error s => cases h
  | ok b => rw [Except.ok.inj h]

/-- **A fragment gives an expansion.** -/
theorem Fragment.exists_expansion {f : Fragment} {stand : List Variable} {scope : String} {g : SourceGraph}
    (h : f.unnamed stand scope = .ok (results, g)) : ∃ x : Expansion, x.results = results ∧ x.graph = g := by
  obtain ⟨found, -, h₁⟩ := Emit.except_bind_ok h
  obtain ⟨p, -, h₂⟩ := Emit.except_bind_ok h₁
  obtain ⟨built, hbuilt, h₃⟩ := Emit.except_bind_ok h₂
  obtain ⟨rfl, rfl⟩ := Prod.mk.inj (Except.ok.inj h₃)
  obtain ⟨weights, -, h₄⟩ := Emit.except_bind_ok (liftSlip_ok hbuilt)
  obtain ⟨names, -, h₅⟩ := Emit.except_bind_ok h₄
  obtain ⟨inputs, -, h₆⟩ := Emit.except_bind_ok h₅
  have hlists := SourceGraph.lists_build p weights inputs
    (((found.map Prod.snd).flatten).map SourceGraph.terminalOf)
  obtain rfl := Except.ok.inj h₆
  refine ⟨⟨found, _, hlists.plain, ?_⟩, rfl, rfl⟩
  rw [hlists.outputs, map_map, map_flatten, map_map]
  rfl

/-! ## Slots of an expansion -/

section Slots

variable {op : OpNode} [op.Plain] {g g' : SourceGraph}

theorem plain_renameResult {old new : String} (hg : ∀ e ∈ g.nodes, e.2.Plain)
    (h : renameResult g old (.str new) = .ok g') : ∀ e ∈ g'.nodes, e.2.Plain := by
  unfold renameResult at h
  split at h
  · cases h
  · obtain rfl := Except.ok.inj h
    refine forall_mem_map.2 fun e he => ?_
    have := hg e he
    exact plain_renameOutput

theorem plain_nameSlot {slot : String} {vars : List Variable} {i : Nat}
    (hg : ∀ e ∈ g.nodes, e.2.Plain) (h : nameSlot op slot i vars g = .ok g') :
    ∀ e ∈ g'.nodes, e.2.Plain := by
  induction vars generalizing i g with
  | nil => exact Except.ok.inj h ▸ hg
  | cons v vars ih =>
    obtain ⟨new, hnew, h₁⟩ := Emit.except_bind_ok h
    obtain ⟨x, rfl, -⟩ := OpNode.Plain.outputAt op hnew
    obtain ⟨g₁, hg₁, h₂⟩ := Emit.except_bind_ok h₁
    exact ih (plain_renameResult hg hg₁) h₂

theorem plain_nameResults (hg : ∀ e ∈ g.nodes, e.2.Plain) (h : nameResults op results g = .ok g') :
    ∀ e ∈ g'.nodes, e.2.Plain := by
  induction results generalizing g with
  | nil => exact Except.ok.inj h ▸ hg
  | cons s results ih =>
    obtain ⟨g₁, hg₁, h₁⟩ := Emit.except_bind_ok h
    exact ih (plain_nameSlot hg hg₁) h₁

/-- **The output slots of an expansion hold lists of names**, as those of its operator do. -/
theorem Fragment.plain_graph {f : Fragment} {stand : List Variable} {scope : String}
    (h : f.graph op stand scope = .ok g) : ∀ e ∈ g.nodes, e.2.Plain := by
  rw [Fragment.graph_eq] at h
  obtain ⟨x, hx, hnamed⟩ := Emit.except_bind_ok h
  obtain ⟨y, -, hy⟩ := Fragment.exists_expansion hx
  exact plain_nameResults (hy ▸ y.plain) (Fragment.liftSlip_ok hnamed)

end Slots

/-! ## Wiring of an expansion -/

/-- **How an expansion is wired to its operator.**  Naming the results gives a graph.  In it every outer
name is written by exactly one node and every name that is read comes from somewhere if and only if
this is so for the names that the results are carried to; and when the outer names are new, if and
only if no result is taken twice, each is written by exactly one node, and none is read in the
expansion unless it comes from outside. -/
theorem expansion_wired_iff (op : OpNode) (x : Expansion) (hplaces : op.Places x.results)
    (hclosed : x.graph.Closed) :
    ∃ g, nameResults op x.results x.graph = .ok g ∧
      (∀ f stand scope, Fragment.unnamed f stand scope = .ok (x.results, x.graph) →
        f.graph op stand scope = .ok g) ∧
      (g.Wired (op.takings x.results) ↔
        (∀ q ∈ op.takings x.results, ∃! i : Nat, ∃ e ∈ x.graph.nodes[i]?,
          ∃ y, e.2.Writes y ∧ carried (op.takings x.results) y = q.2) ∧
        ∀ e ∈ x.graph.nodes, ∀ z, e.2.Reads z → x.graph.Provides z ∨
          ∃ y, x.graph.Writes y ∧ carried (op.takings x.results) y = z) ∧
      (New x.graph (op.takings x.results) → (g.Wired (op.takings x.results) ↔
        ((op.takings x.results).map Prod.fst).Nodup ∧
        (∀ q ∈ op.takings x.results, x.graph.WrittenOnce q.1) ∧
        ∀ q ∈ op.takings x.results, ∀ e ∈ x.graph.nodes, e.2.Reads q.1 → x.graph.Provides q.1)) := by
  have hresults : (op.takings x.results).map Prod.fst = x.graph.outputs.map Terminal.name := by
    rw [x.outputs, OpNode.takings, List.map_flatMap]
    refine List.flatMap_congr fun s _ => ?_
    calc (s.2.zipIdx.map fun v => (v.1.name, op.outerName s.1 v.2)).map Prod.fst
        = (s.2.zipIdx.map Prod.fst).map Variable.name := by rw [List.map_map, List.map_map]; rfl
      _ = s.2.map Variable.name := by rw [List.zipIdx_map_fst]
  obtain ⟨outputs, hnamed⟩ := foldlM_renameResult (List.Perm.of_eq hresults).subperm
  have hrun : nameResults op x.results x.graph =
      .ok (x.graph.named (op.takings x.results) outputs) :=
    (nameResults_eq hplaces x.graph).trans hnamed
  refine ⟨_, hrun, fun f stand scope hf => ?_, ?_, fun hnew => hnew.wired_iff x.plain hclosed⟩
  · rw [Fragment.graph_eq, hf]
    change Fragment.graph.liftSlip (nameResults op x.results x.graph) = _
    rw [hrun]
    rfl
  · rw [SourceGraph.Wired, closed_named_iff x.plain]
    simp only [writtenOnce_named_iff x.plain]

/-- Two operators, one after the other, and both outputs as results. -/
def Expansion.chained : Expansion where
  results := [("Out", [{ name := "u" }]), ("Aux", [{ name := "t" }])]
  graph := { SourceGraph.empty with
    inputs := [⟨"x", [2], 5⟩]
    outputs := [⟨"u", [2], 5⟩, ⟨"t", [2], 5⟩]
    nodes := [("relu_0", SourceGraph.nodeOf default "relu_0" ⟨"relu", [("X", ["x"])], [("Out", ["t"])], []⟩),
      ("tanh_0", SourceGraph.nodeOf default "tanh_0" ⟨"tanh", [("X", ["t"])], [("Out", ["u"])], []⟩)] }
  plain := by
    intro e he
    rcases mem_pair.1 he with rfl | rfl <;> exact SourceGraph.plain_nodeOf _ _ _
  outputs := rfl

def OpNode.forked : OpNode :=
  SourceGraph.nodeOf default "probe_0" ⟨"probe", [("X", ["x"])], [("Out", ["y"]), ("Aux", ["z"])], []⟩

theorem OpNode.takings_forked :
    OpNode.forked.takings Expansion.chained.results = [("u", "y"), ("t", "z")] := rfl

theorem OpNode.places_forked : OpNode.forked.Places Expansion.chained.results :=
  forall_mem_cons.2 ⟨forall_mem_singleton.2 rfl,
    forall_mem_singleton.2 (forall_mem_singleton.2 rfl)⟩

theorem Expansion.writes_chained_iff : Expansion.chained.graph.Writes x ↔ x = "t" ∨ x = "u" := by
  simp [SourceGraph.Writes, OpNode.Writes, OpNode.written, Expansion.chained, SourceGraph.nodeOf]

theorem Expansion.closed_chained : Expansion.chained.graph.Closed := by
  intro e he x hx
  rw [Expansion.writes_chained_iff]
  rcases mem_pair.1 he with rfl | rfl
  · have hx : x = "x" := by simpa [OpNode.Reads, SourceGraph.nodeOf] using hx
    exact Or.inl (Or.inl (hx ▸ mem_cons_self))
  · have hx : x = "t" := by simpa [OpNode.Reads, SourceGraph.nodeOf] using hx
    exact Or.inr (Or.inl hx)

theorem expansion_wired_iff_chained :
    ∃ g, nameResults .forked Expansion.chained.results Expansion.chained.graph = .ok g ∧
      ¬ g.Wired (OpNode.forked.takings Expansion.chained.results) := by
  have hnew : New Expansion.chained.graph (OpNode.forked.takings Expansion.chained.results) := by
    rw [OpNode.takings_forked]
    refine ⟨by decide, by unfold Apart; decide, fun q hq => ?_⟩
    rw [Expansion.writes_chained_iff]
    revert q
    decide
  obtain ⟨g, hg, -, -, hwired⟩ :=
    expansion_wired_iff .forked .chained OpNode.places_forked Expansion.closed_chained
  refine ⟨g, hg, fun h => ?_⟩
  -- the second operator reads the result that the first one writes
  obtain ⟨-, -, hreads⟩ := (hwired hnew).1 h
  have hprovided := hreads ("t", "z") (by rw [OpNode.takings_forked]; decide) _
    (List.mem_cons_of_mem _ List.mem_cons_self) ⟨_, List.mem_cons_self, List.mem_cons_self⟩
  revert hprovided
  unfold SourceGraph.Provides
  decide

end ModelExport
