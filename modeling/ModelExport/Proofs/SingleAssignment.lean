import Mathlib.Tactic.MkIffOfInductiveProp
import ModelExport.Proofs.Renaming.Distinct

/-!
# Proofs/SingleAssignment — when all tensors of an exported model have different names

A tensor of an exported model is called by a variable of the program, by the type of a node and a
number, by another name and a mark, or by another name and the number of a renaming.  Nothing keeps
the four apart.  Where the program assigns each variable once and none of its names is made up by the
export, all names of the model are different (`nodup_tensors_of_assignsOnce`).
-/

namespace ModelExport

open List

variable {p : Program} {x y : String} {weights : List (String × Weight)} {v : Value}

/-! ## How often a name is written -/

section Counting

-- values cannot be compared by computation
open scoped Classical

section Writers

variable {ns : List Node} {n m l : Node} {i j k : Nat}

/-- A node writes besides those in front of it. -/
theorem count_take_add_le (hl : ns[k]? = some l) (v : Value) :
    ((ns.take k).flatMap Node.outputs).count v + l.outputs.count v ≤
      (ns.flatMap Node.outputs).count v := by
  obtain ⟨hk, rfl⟩ := List.getElem?_eq_some_iff.1 hl
  calc ((ns.take k).flatMap Node.outputs).count v + ns[k].outputs.count v
      = ((ns.take (k + 1)).flatMap Node.outputs).count v := by
        rw [← take_append_getElem hk, flatMap_append, flatMap_singleton,
          count_append]
    _ ≤ ((ns.take (k + 1) ++ ns.drop (k + 1)).flatMap Node.outputs).count v := by
        rw [flatMap_append, count_append]
        exact Nat.le_add_right _ _
    _ = (ns.flatMap Node.outputs).count v := by rw [take_append_drop]

theorem count_two_le (hij : i < j) (hn : ns[i]? = some n) (hm : ns[j]? = some m) (v : Value) :
    n.outputs.count v + m.outputs.count v ≤ (ns.flatMap Node.outputs).count v := by
  have hn' : (ns.take j)[i]? = some n := by rw [getElem?_take_of_lt hij, hn]
  have hfirst := count_take_add_le hn' v
  have hsecond := count_take_add_le hm v
  omega

theorem count_three_le (hij : i < j) (hjk : j < k) (hn : ns[i]? = some n) (hm : ns[j]? = some m)
    (hl : ns[k]? = some l) (v : Value) :
    n.outputs.count v + m.outputs.count v + l.outputs.count v ≤
      (ns.flatMap Node.outputs).count v := by
  have hn' : (ns.take k)[i]? = some n := by rw [getElem?_take_of_lt (hij.trans hjk), hn]
  have hm' : (ns.take k)[j]? = some m := by rw [getElem?_take_of_lt hjk, hm]
  have hfirst := count_two_le hij hn' hm' v
  have hsecond := count_take_add_le hl v
  omega

/-- **Two nodes that write a tensor are its only writers**, if it is written no more than twice. -/
theorem only_writers (hcount : (ns.flatMap Node.outputs).count v ≤ 2) (hij : i < j) (hn : ns[i]? = some n)
    (hm : ns[j]? = some m) (hnv : v ∈ n.outputs) (hmv : v ∈ m.outputs) (hl : ns[k]? = some l) :
    l.outputs.count v ≤ 1 ∧ (v ∈ l.outputs → k = i ∨ k = j) := by
  have hnpos : 0 < n.outputs.count v := count_pos_iff.2 hnv
  have hmpos : 0 < m.outputs.count v := count_pos_iff.2 hmv
  have hthird : l.outputs.count v = 0 → l.outputs.count v ≤ 1 ∧ (v ∈ l.outputs → k = i ∨ k = j) :=
    fun hzero => ⟨by omega, fun hlv => absurd (count_pos_iff.2 hlv) (by omega)⟩
  have hboth := count_two_le hij hn hm v
  rcases Nat.lt_trichotomy k i with hki | rfl | hik
  · have := count_three_le hki hij hl hn hm v
    exact hthird (by omega)
  · obtain rfl := Option.some.inj (hn.symm.trans hl)
    exact ⟨by omega, fun _ => Or.inl rfl⟩
  rcases Nat.lt_trichotomy k j with hkj | rfl | hjk
  · have := count_three_le hik hkj hn hl hm v
    exact hthird (by omega)
  · obtain rfl := Option.some.inj (hm.symm.trans hl)
    exact ⟨by omega, fun _ => Or.inr rfl⟩
  · have := count_three_le hij hjk hn hm hl v
    exact hthird (by omega)

end Writers

namespace Batch.Leads

variable {b : Batch} {V : List Value} {d d' : Draft} (h : b.Leads V d d') (hV : V.Nodup)
  (hmade : ∀ s ∈ b.made, .str s ∉ V)

include h hV hmade

/-- **A batch writes a name once**, or twice if it is one that is written again. -/
theorem count_written_le (v : Value) :
    b.written.count v ≤ 2 ∧ (v ∉ b.again → b.written.count v ≤ 1) := by
  have hcount := h.written.count_eq v
  rw [count_append, count_append] at hcount
  have hgiven := h.given.count_le v
  have hagain := h.again.count_le v
  have hone : V.count v + (b.made.map Value.str).count v ≤ 1 := by
    by_cases hv : v ∈ V
    · have hno : v ∉ b.made.map Value.str := by
        intro hmem
        obtain ⟨s, hs, rfl⟩ := mem_map.1 hmem
        exact hmade s hs hv
      rw [count_eq_zero.2 hno]
      exact nodup_iff_count_le_one.1 hV v
    · rw [count_eq_zero.2 hv, Nat.zero_add]
      exact nodup_iff_count_le_one.1 (h.distinct.map fun _ _ => Value.str.inj) v
  refine ⟨by omega, fun hv => ?_⟩
  have := count_eq_zero.2 hv
  omega

theorem count_outputs_le (v : Value) : (b.nodes.flatMap Node.outputs).count v ≤ 2 := by
  have hcount := (h.count_written_le hV hmade v).1
  rw [Batch.written, count_append] at hcount
  omega

variable (hread : ¬ UnreadableIn b.nodes)

include hread

/-- What is written twice is read by the second node that writes it. -/
theorem rewrittenIn (hv : 1 < b.written.count v) : RewrittenIn b.nodes v := by
  have hagain : v ∈ b.again := by
    by_contra hno
    exact absurd ((h.count_written_le hV hmade v).2 hno) (by omega)
  exact h.reread.resolve_left hread v hagain

/-- **The nodes of a batch write over what they read.** -/
theorem rewritesOnce : RewritesOnce b.nodes := by
  have htwice : ∀ {v : Value}, 1 < (b.nodes.flatMap Node.outputs).count v → RewrittenIn b.nodes v := by
    intro v hv
    refine h.rewrittenIn hV hmade hread ?_
    rw [Batch.written, count_append]
    omega
  refine ⟨?_, ?_, ?_⟩
  · intro n hn
    refine nodup_iff_count_le_one.2 fun v => ?_
    by_contra hmany
    obtain ⟨k, hk⟩ := mem_iff_getElem?.1 hn
    have hpart := count_take_add_le hk v
    obtain ⟨i, j, a, c, hij, ha, hc, hav, -, hcv⟩ := htwice (v := v) (by omega)
    exact hmany (only_writers (h.count_outputs_le hV hmade v) hij ha hc hav hcv hk).1
  · intro i j n m x hij hn hm hnx hmx
    have hpart := count_two_le hij hn hm (.str x)
    have hnpos := count_pos_iff.2 hnx
    have hmpos := count_pos_iff.2 hmx
    obtain ⟨i', j', a, c, hij', ha, hc, hav, hread', hcv⟩ := htwice (v := .str x) (by omega)
    have honly := fun {k : Nat} {l : Node} =>
      only_writers (k := k) (l := l) (h.count_outputs_le hV hmade (.str x)) hij' ha hc hav hcv
    have hi := (honly hn).2 hnx
    have hj := (honly hm).2 hmx
    obtain rfl : j = j' := by omega
    obtain rfl := Option.some.inj (hm.symm.trans hc)
    exact hread'
  · intro i j k n m l x hij hjk hn hm hl hnx hmx hlx
    have hpart := count_three_le hij hjk hn hm hl (.str x)
    have hnpos := count_pos_iff.2 hnx
    have hmpos := count_pos_iff.2 hmx
    have hlpos := count_pos_iff.2 hlx
    have := h.count_outputs_le hV hmade (.str x)
    omega

/-- **No node writes a weight.** -/
theorem not_writes_weight {w : String} (hw : w ∈ b.weights) {n : Node} (hn : n ∈ b.nodes) :
    ¬ n.Writes w := by
  intro hnw
  have hnode : 0 < (b.nodes.flatMap Node.outputs).count (.str w) :=
    count_pos_iff.2 (mem_flatMap.2 ⟨n, hn, hnw⟩)
  have hweight : 0 < (b.weights.map Value.str).count (.str w) :=
    count_pos_iff.2 (mem_map_of_mem hw)
  have hcount := (h.count_written_le hV hmade (.str w)).1
  have hboth : 1 < b.written.count (.str w) := by
    rw [Batch.written, count_append]
    omega
  obtain ⟨i, j, a, c, hij, ha, hc, hav, -, hcv⟩ := h.rewrittenIn hV hmade hread hboth
  -- two nodes and a weight would be three
  have htwo := count_two_le hij ha hc (.str w)
  have hapos := count_pos_iff.2 hav
  have hcpos := count_pos_iff.2 hcv
  rw [Batch.written, count_append] at hcount
  omega

end Batch.Leads

end Counting

/-! ## Names of a program -/

theorem memberAt_zero {α : Type} (xs : List α) : (memberAt xs 0).toOption = xs.head? := by
  cases xs with
  | nil => rfl
  | cons x xs =>
    rw [memberAt_cons_zero]
    rfl

namespace Operation

def written (op : Operation) : List String := op.outputs.flatMap Prod.snd

def slot (op : Operation) (s : String) : List String := (Assoc.get? op.outputs s).getD []

/-- **The names that may be derived from the outputs of an operation.** -/
def derived (op : Operation) : List String :=
  match markedSlot op.type with
  | some (s, marks) => (op.slot s).head?.toList.flatMap fun x => marks.map (x ++ ·)
  | none => []

theorem written_nodeOf (b : Block) (name : String) (op : Operation) :
    (SourceGraph.nodeOf b name op).written = op.written.map Value.str := by
  rw [OpNode.written, SourceGraph.nodeOf, flatMap_map, written, map_flatMap]
  exact flatMap_congr fun e _ => Value.given_strs e.2

theorem slotAt_nodeOf (b : Block) (name : String) (op : Operation) (s : String) :
    (SourceGraph.nodeOf b name op).slotAt s 0 =
      ((op.slot s).head?.map Value.str).getD (.int 0) := by
  have hget : Assoc.get? (SourceGraph.nodeOf b name op).outputs s =
      (Assoc.get? op.outputs s).map Value.strs := by
    simp [Assoc.get?, SourceGraph.nodeOf, find?_map, Function.comp_def]
  rw [OpNode.slotAt, OpNode.outputAt, OpNode.output, hget, slot]
  cases Assoc.get? op.outputs s with
  | none => rfl
  | some xs =>
    have hfirst : (memberAt (xs.map Value.str) 0).toOption = xs.head?.map Value.str := by
      rw [memberAt_zero, head?_map]
    exact congrArg (Option.getD · (.int 0)) hfirst

theorem derived_nodeOf (b : Block) (name : String) (op : Operation) :
    (SourceGraph.nodeOf b name op).derived = op.derived.map Value.str := by
  have htype : (SourceGraph.nodeOf b name op).type = op.type := rfl
  rw [OpNode.derived, derived, htype]
  cases markedSlot op.type with
  | none => rfl
  | some sm =>
    dsimp only
    rw [slotAt_nodeOf, Value.marks]
    cases (op.slot sm.1).head? with
    | none => simp [Value.mark, Value.given]
    | some x => simp [Value.mark, Value.given, ← map_eq_flatMap]

end Operation

namespace Program

def written (p : Program) : List String := p.operations.flatMap Operation.written

def derived (p : Program) : List String := p.operations.flatMap Operation.derived

def parameters (p : Program) : List String :=
  (p.global.vars.filter fun v => !SourceGraph.isHolderName v.name && v.persistable).map Variable.name

end Program

theorem SourceGraph.keys_weightsOf {vs : List Variable} (h : weightsOf vs = .ok weights) :
    weights.map Prod.fst =
      (vs.filter fun v => !isHolderName v.name && v.persistable).map Variable.name := by
  induction vs generalizing weights with
  | nil => rw [← Except.ok.inj h]; rfl
  | cons v vs ih =>
    unfold weightsOf at h
    split at h
    · rename_i hskip
      rw [ih h, filter_cons_of_neg (by simpa [imp_iff_not_or] using hskip)]
    · rename_i htake
      obtain ⟨w, -, h₁⟩ := Emit.except_bind_ok h
      obtain ⟨rest, hrest, h₂⟩ := Emit.except_bind_ok h₁
      rw [← Except.ok.inj h₂, map_cons, ih hrest,
        filter_cons_of_pos (by simpa using htake), map_cons]

/-- **The names that come with the graph of a program.** -/
theorem SourceGraph.names_build (h : weightsOf p.global.vars = .ok weights) (inputs outputs : List Terminal) :
    (build p weights inputs outputs).names = (p.parameters.dedup ++
      p.operations.flatMap fun op => op.written ++ op.derived).map Value.str := by
  have hlists := lists_build p weights inputs outputs
  have hops := hlists.flatMap (f := fun op => op.written ++ op.derived)
    (k := fun op => (op.written ++ op.derived).map Value.str) fun b name op => by
      rw [op.written_nodeOf, op.derived_nodeOf, map_append]
  rw [SourceGraph.names, hops, hlists.weights, keys_weightsOf h, map_append, map_flatMap]
  rfl

/-! ## Derived names are different -/

/-- No mark is the end of another. -/
theorem mark_eq_of_suffix : ∀ m ∈ cellMarks ++ coderMarks, ∀ n ∈ cellMarks ++ coderMarks,
    m.toList <:+ n.toList → m = n := by
  simp only [← isSuffixOf_iff_suffix]
  decide +kernel

theorem marked_inj {m n : String} (hm : m ∈ cellMarks ++ coderMarks) (hn : n ∈ cellMarks ++ coderMarks)
    (h : x ++ m = y ++ n) : x = y ∧ m = n := by
  have hl := congrArg String.toList h
  rw [String.toList_append, String.toList_append] at hl
  have hmn : m = n := by
    rcases suffix_or_suffix_of_suffix (suffix_append x.toList m.toList)
      (hl ▸ suffix_append y.toList n.toList) with hsuffix | hsuffix
    · exact mark_eq_of_suffix m hm n hn hsuffix
    · exact (mark_eq_of_suffix n hn m hm hsuffix).symm
  subst hmn
  exact ⟨String.toList_inj.1 (append_cancel_right hl), rfl⟩

/-- A mark has no dot, and more than digits. -/
theorem dotless_mark : ∀ m ∈ cellMarks ++ coderMarks, '.' ∉ m.toList ∧ ∃ c ∈ m.toList, c.isDigit = false := by
  have hmarks : ∀ m ∈ cellMarks ++ coderMarks,
      m.toList.contains '.' = false ∧ (m.toList.any fun c => !c.isDigit) = true := by decide +kernel
  intro m hm
  simpa using hmarks m hm

theorem marked_ne_successor {m : String} (hm : m ∈ cellMarks ++ coderMarks) (x y : String) (k : Nat) :
    x ++ m ≠ Renamer.successor y k := by
  intro h
  obtain ⟨hdot, c, hc, hdigit⟩ := dotless_mark m hm
  have hl := congrArg String.toList h
  rw [String.toList_append, toList_successor] at hl
  rcases append_eq_append_iff.1 hl with ⟨u, -, hu⟩ | ⟨u, -, hu⟩
  · exact hdot (hu ▸ mem_append_right u mem_cons_self)
  · have hmem : c ∈ '.' :: Nat.toDigits 10 k := hu ▸ mem_append_right u hc
    rcases mem_cons.1 hmem with rfl | hmem
    · exact hdot hc
    · exact not_mem_toDigits hdigit k hmem

theorem marks_of_markedSlot {type : String} {sm : String × List String}
    (h : markedSlot type = some sm) : sm.2 ⊆ cellMarks ++ coderMarks ∧ sm.2.Nodup := by
  unfold markedSlot at h
  split at h
  · rw [← Option.some.inj h]
    exact ⟨subset_append_left _ _, by decide +kernel⟩
  · split at h
    · rw [← Option.some.inj h]
      exact ⟨subset_append_right _ _, by decide +kernel⟩
    · cases h

namespace Operation

variable {op : Operation}

theorem slot_subset_written (op : Operation) (s : String) : op.slot s ⊆ op.written := by
  intro x hx
  rw [slot, Assoc.get?] at hx
  cases hfind : op.outputs.find? (·.1 == s) with
  | none => simp [hfind] at hx
  | some e =>
    rw [hfind] at hx
    exact mem_flatMap.2 ⟨e, mem_of_find?_eq_some hfind, hx⟩

theorem mem_derived (h : y ∈ op.derived) : ∃ x ∈ op.written, ∃ m ∈ cellMarks ++ coderMarks, y = x ++ m := by
  unfold derived at h
  split at h
  · rename_i s marks hmarked
    obtain ⟨x, hx, hy⟩ := mem_flatMap.1 h
    obtain ⟨m, hm, rfl⟩ := mem_map.1 hy
    exact ⟨x, op.slot_subset_written s (mem_of_head? (Option.mem_toList.1 hx)), m,
      (marks_of_markedSlot hmarked).1 hm, rfl⟩
  · exact absurd h not_mem_nil

theorem nodup_derived (op : Operation) : op.derived.Nodup := by
  unfold derived
  split
  · rename_i s marks hmarked
    obtain ⟨hsub, hnodup⟩ := marks_of_markedSlot hmarked
    cases (op.slot s).head? with
    | none => exact nodup_nil
    | some x =>
      rw [Option.toList_some, flatMap_singleton]
      exact hnodup.map_on fun m hm n hn h => (marked_inj (hsub hm) (hsub hn) h).2
  · exact nodup_nil

end Operation

theorem Program.nodup_derived (h : p.written.Nodup) : p.derived.Nodup := by
  refine nodup_flatMap.2 ⟨fun op _ => op.nodup_derived, ?_⟩
  refine (nodup_flatMap.1 h).2.imp fun {op op'} hdisjoint y hy hy' => ?_
  obtain ⟨x, hx, m, hm, rfl⟩ := Operation.mem_derived hy
  obtain ⟨x', hx', m', hm', he⟩ := Operation.mem_derived hy'
  obtain ⟨rfl, -⟩ := marked_inj hm hm' he
  exact hdisjoint hx hx'

/-! ## Conversions -/

/-- **A name made by counting** from one draft to another. -/
def Draft.Numbers (d d' : Draft) (x : String) : Prop :=
  ∃ type k, x = numbered type k ∧ d.count type ≤ k ∧ k < d'.count type

instance (d d' : Draft) (x : String) : Decidable (d.Numbers d' x) :=
  decidable_of_iff (∃ type ∈ Assoc.keys d'.counts, ∃ k < d'.count type,
      x = numbered type k ∧ d.count type ≤ k) <| by
    constructor
    · rintro ⟨type, -, k, hhigh, hx, hlow⟩
      exact ⟨type, k, hx, hlow, hhigh⟩
    · rintro ⟨type, k, hx, hlow, hhigh⟩
      exact ⟨type, mem_keys_of_lt_count hhigh, k, hhigh, hx, hlow⟩

def Model.tensors (m : Model) : List Value :=
  m.inputs.map ValueInfo.name ++ m.nodes.flatMap ModelNode.outputs

namespace Program

/-- **Each variable has one source**: it is an input, a parameter, or written by one operation. -/
@[mk_iff] structure Separate (p : Program) (feeds : List String) : Prop where
  once : p.operations.Pairwise fun op op' => op.written.Disjoint op'.written
  feeds_parameters : feeds.Disjoint p.parameters
  feeds_written : feeds.Disjoint p.written
  parameters_written : p.parameters.Disjoint p.written

/-- **Each variable gets its value once**: it has one source, and is listed there once. -/
@[mk_iff] structure AssignsOnce (p : Program) (feeds : List String) : Prop extends
    p.Separate feeds where
  fed : feeds.Nodup
  listed : ∀ op ∈ p.operations, op.written.Nodup

theorem AssignsOnce.written {feeds : List String} (h : p.AssignsOnce feeds) :
    p.written.Nodup := nodup_flatMap.2 ⟨h.listed, h.once⟩

def assigned (p : Program) (feeds : List String) : List String := feeds ++ p.parameters ++ p.written

/-- **No variable is called by a name that an export makes up**, by a mark, by counting or by
renaming; and marks lead to no name that is counted. -/
@[mk_iff] structure AvoidsMade (p : Program) (feeds : List String) (d d' : Draft) : Prop where
  derived : (p.assigned feeds).Disjoint p.derived
  numbered : ∀ x ∈ p.assigned feeds ++ p.derived, ¬ d.Numbers d' x
  renamed : ∀ x ∈ p.assigned feeds, ¬ d.HandsOut d' x

instance (xs ys : List String) : Decidable (xs.Disjoint ys) := decidable_of_iff' _ disjoint_left

instance (p : Program) (feeds : List String) : Decidable (p.Separate feeds) :=
  decidable_of_iff' _ (separate_iff p feeds)

instance (p : Program) (feeds : List String) : Decidable (p.AssignsOnce feeds) :=
  decidable_of_iff' _ (assignsOnce_iff p feeds)

instance (p : Program) (feeds : List String) (d d' : Draft) : Decidable (p.AvoidsMade feeds d d') :=
  decidable_of_iff' _ (avoidsMade_iff p feeds d d')

theorem mem_assigned (feeds : List String) (hx : x ∈ p.parameters ++ p.written) : x ∈ p.assigned feeds := by
  rw [assigned, append_assoc]
  exact mem_append_right _ hx

/-- Derived names are not handed out. -/
theorem not_handsOut_of_mem_derived (hx : x ∈ p.derived) (d d' : Draft) : ¬ d.HandsOut d' x := by
  rintro ⟨y, k, rfl, -⟩
  obtain ⟨op, -, hop⟩ := mem_flatMap.1 hx
  obtain ⟨z, -, m, hm, he⟩ := Operation.mem_derived hop
  exact marked_ne_successor hm z y k he.symm

end Program

theorem SourceGraph.nodup_names {feeds : List String} {d d' : Draft} (honce : p.AssignsOnce feeds)
    (havoids : p.AvoidsMade feeds d d') (hw : weightsOf p.global.vars = .ok weights)
    (inputs outputs : List Terminal) : (build p weights inputs outputs).names.Nodup := by
  have hderived := havoids.derived
  simp only [Program.assigned, disjoint_append_left] at hderived
  have hops : (p.operations.flatMap fun op => op.written ++ op.derived).Perm
      (p.written ++ p.derived) := (flatMap_append_perm _ _ _).symm
  rw [names_build hw]
  refine List.Nodup.map (fun _ _ => Value.str.inj) (nodup_append'.2 ⟨nodup_dedup _, ?_, ?_⟩)
  · rw [hops.nodup_iff]
    exact honce.written.append (Program.nodup_derived honce.written) hderived.2
  · intro x hx hx'
    have hparam : x ∈ p.parameters := mem_dedup.1 hx
    rcases mem_append.1 (hops.subset hx') with hwritten | hmarked
    · exact honce.parameters_written hparam hwritten
    · exact hderived.1.2 hparam hmarked

theorem SourceGraph.mem_names_build (hw : weightsOf p.global.vars = .ok weights)
    (inputs outputs : List Terminal) (h : .str x ∈ (build p weights inputs outputs).names) :
    x ∈ p.parameters ++ p.written ++ p.derived := by
  rw [names_build hw] at h
  obtain ⟨y, hy, he⟩ := mem_map.1 h
  obtain rfl := Value.str.inj he
  rw [append_assoc]
  rcases mem_append.1 hy with hy | hy
  · exact mem_append_left _ (mem_dedup.1 hy)
  · exact mem_append_right _ ((flatMap_append_perm _ _ _).symm.subset hy)

namespace Exports

variable {s : Session} {c : Conversion} {g : SourceGraph} {d₁ d : Draft} {m : Model}
  (he : Exports c (s.draft c.options.opset) g d₁ d m)

include he

/-- What the nodes of a model write: weights, and what nodes write after renaming. -/
theorem outputs_eq : m.nodes.flatMap ModelNode.outputs =
    (Assoc.keys d₁.weights).map Value.str ++ d₁.renamed.1.flatMap Node.outputs := by
  have hmodel : m.nodes.flatMap ModelNode.outputs = m.accesses.flatMap Access.writes := by
    rw [Model.accesses, flatMap_map]
    rfl
  have hweights : (d₁.weights.map fun e => e.2.access).flatMap Access.writes =
      (Assoc.keys d₁.weights).map Value.str := by
    rw [flatMap_map, Assoc.keys, map_map, map_eq_flatMap]
    exact flatMap_congr fun e hmem => he.built.tidy.weights e hmem
  rw [hmodel, he.accesses, flatMap_append, hweights, flatMap_map]
  rfl

/-- Renaming hands out what the conversion does. -/
theorem handsOut (h : d₁.renamer.HandsOut d₁.renamed.2 y) : (s.draft c.options.opset).HandsOut d y := by
  obtain ⟨x, k, hk, hlow, hhigh⟩ := h
  refine ⟨x, k, hk, ?_, ?_⟩
  · rw [Draft.renameCount, ← he.built.renames]
    exact hlow
  · rw [Draft.renameCount, he.renames]
    exact hhigh

variable {p : Program} {feeds : List String} {b : Batch}
  (hb : b.Leads g.names (s.draft c.options.opset) d₁)

include hb

theorem numbers_of_made (hx : x ∈ b.made) : (s.draft c.options.opset).Numbers d x := by
  obtain ⟨type, k, hk, hlow, hhigh⟩ := hb.counted x hx
  exact ⟨type, k, hk, hlow, by rwa [Draft.count, he.counts]⟩

variable (hp : c.program = .program p)

include hp

/-- **What is written before renaming** comes from the program, or is numbered. -/
theorem source_of_written (h : .str x ∈ b.written) :
    x ∈ p.parameters ++ p.written ++ p.derived ∨ (s.draft c.options.opset).Numbers d x := by
  obtain ⟨p', weights, inputs, outputs, hp', hw, hg⟩ := Conversion.graph_ok he.graph
  obtain rfl : p = p' := ProgramOffer.program.inj (hp.symm.trans hp')
  rcases hb.mem_written h with hx | ⟨y, hy, hxy⟩
  · rw [hg] at hx
    exact Or.inl (SourceGraph.mem_names_build hw inputs outputs hx)
  · obtain rfl := Value.str.inj hxy
    exact Or.inr (he.numbers_of_made hb hy)

variable (honce : p.AssignsOnce feeds) (havoids : p.AvoidsMade feeds (s.draft c.options.opset) d)

include honce havoids

/-- **The nodes of a draft write over what they read**, and write no weight. -/
theorem rewritesOnce : RewritesOnce b.nodes ∧ ∀ w ∈ b.weights, ∀ n ∈ b.nodes, ¬ n.Writes w := by
  obtain ⟨p', weights, inputs, outputs, hp', hw, hg⟩ := Conversion.graph_ok he.graph
  obtain rfl : p = p' := ProgramOffer.program.inj (hp.symm.trans hp')
  have hV : g.names.Nodup := hg ▸ SourceGraph.nodup_names honce havoids hw inputs outputs
  have hmade : ∀ x ∈ b.made, .str x ∉ g.names := by
    intro x hx hmem
    rw [hg] at hmem
    refine havoids.numbered x ?_ (he.numbers_of_made hb hx)
    rcases mem_append.1 (SourceGraph.mem_names_build hw inputs outputs hmem) with hown | hmarked
    · exact mem_append_left _ (Program.mem_assigned feeds hown)
    · exact mem_append_right _ hmarked
  have hread : ¬ UnreadableIn b.nodes := by
    rintro ⟨n, hn, v, hv, hkey⟩
    rw [← hb.nodes_eq rfl] at hn
    simp [he.named.inputs n hn v hv] at hkey
  exact ⟨hb.rewritesOnce hV hmade hread, fun w hw n hn => hb.not_writes_weight hV hmade hread hw hn⟩

omit honce in
/-- Nothing that is written before renaming is handed out. -/
theorem not_handsOut_of_written (h : .str x ∈ b.written) : ¬ (s.draft c.options.opset).HandsOut d x := by
  rcases he.source_of_written hb hp h with hx | ⟨type, k, rfl, -⟩
  · rcases mem_append.1 hx with hown | hmarked
    · exact havoids.renamed x (Program.mem_assigned feeds hown)
    · exact Program.not_handsOut_of_mem_derived hmarked _ _
  · rintro ⟨y, j, hy, -⟩
    exact numbered_ne_successor type k y j hy

theorem nodup_outputs : (m.nodes.flatMap ModelNode.outputs).Nodup := by
  obtain ⟨hrewrites, hapart⟩ := he.rewritesOnce hb hp honce havoids
  have hkeys : Assoc.keys d₁.weights = b.weights := hb.weights
  have hnodes : d₁.nodes.map Prod.snd = b.nodes := hb.nodes_eq rfl
  have hnew : ∀ {x : String}, .str x ∈ b.written → ¬ d₁.renamer.HandsOut d₁.renamed.2 x :=
    fun hx hout => he.not_handsOut_of_written hb hp havoids hx (he.handsOut hout)
  have hnode : ∀ {n : Node} {x : String}, n ∈ d₁.nodes.map Prod.snd → n.Writes x → .str x ∈ b.written :=
    fun hn hx => mem_append_left _ (mem_flatMap.2 ⟨_, hnodes ▸ hn, hx⟩)
  rw [he.outputs_eq]
  refine nodup_append'.2 ⟨he.built.tidy.distinct.map fun _ _ => Value.str.inj, ?_, ?_⟩
  · exact Renamer.nodup_outputs_pass he.treated (fun n hn x hx => hnew (hnode hn hx)) rfl
      (hnodes ▸ hrewrites) he.named.outputs
  · intro v hv hv'
    obtain ⟨w, hw, rfl⟩ := mem_map.1 hv
    rw [hkeys] at hw
    obtain ⟨y, hy, hsource⟩ := Renamer.source_of_output he.treated (hnodes ▸ hrewrites)
      he.named.outputs hv'
    obtain rfl := Value.str.inj hy
    rcases hsource with ⟨n, hn, hnw⟩ | hout
    · exact hapart w hw n (hnodes ▸ hn) hnw
    · exact hnew (mem_append_right _ (mem_map_of_mem hw)) hout

/-- **What the nodes of a model write** comes from the program, is numbered, or is handed out. -/
theorem source_of_output (hv : v ∈ m.nodes.flatMap ModelNode.outputs) :
    ∃ x, v = .str x ∧ (x ∈ p.parameters ++ p.written ++ p.derived ∨
      (s.draft c.options.opset).Numbers d x ∨ (s.draft c.options.opset).HandsOut d x) := by
  obtain ⟨hrewrites, -⟩ := he.rewritesOnce hb hp honce havoids
  have hnodes : d₁.nodes.map Prod.snd = b.nodes := hb.nodes_eq rfl
  have hkeys : Assoc.keys d₁.weights = b.weights := hb.weights
  have hwritten : ∀ {x : String}, .str x ∈ b.written → x ∈ p.parameters ++ p.written ++ p.derived ∨
      (s.draft c.options.opset).Numbers d x ∨ (s.draft c.options.opset).HandsOut d x :=
    fun hx => (he.source_of_written hb hp hx).imp_right Or.inl
  rw [he.outputs_eq] at hv
  rcases mem_append.1 hv with hv | hv
  · obtain ⟨w, hw, rfl⟩ := mem_map.1 hv
    rw [hkeys] at hw
    exact ⟨w, rfl, hwritten (mem_append_right _ (mem_map_of_mem hw))⟩
  · obtain ⟨y, rfl, ⟨n, hn, hny⟩ | hout⟩ := Renamer.source_of_output he.treated (hnodes ▸ hrewrites)
      he.named.outputs hv
    · rw [hnodes] at hn
      exact ⟨y, rfl, hwritten (mem_append_left _ (mem_flatMap.2 ⟨n, hn, hny⟩))⟩
    · exact ⟨y, rfl, Or.inr (Or.inr (he.handsOut hout))⟩

end Exports

/-- What holds of a conversion that succeeds, as a test. -/
def Conversion.passes (c : Conversion) (P : Program → SourceGraph → Product → Draft → Bool) : Bool :=
  match c.program, c.graph, EStateM.run (Emit.convert Registry.standard c) blank with
  | .program p, .ok g, .ok product d => P p g product d
  | _, _, _ => false

theorem Conversion.of_passes {c : Conversion} {P : Program → SourceGraph → Product → Draft → Bool}
    (h : c.passes P = true) : ∃ p g product d, c.program = .program p ∧ c.graph = .ok g ∧
      EStateM.run (Emit.convert Registry.standard c) blank = .ok product d ∧ P p g product d = true := by
  unfold passes at h
  split at h
  · rename_i p g product d hp hg hrun
    exact ⟨p, g, product, d, hp, hg, hrun, h⟩
  · cases h

/-- A request to run operations on vectors of length two. -/
def request (feeds parameters : List String) (ops : List Operation) (fetch : String) : Conversion :=
  let vector (persistable : Bool) (x : String) : Variable := { name := x, shape := [2], persistable }
  { program := .program
      { global :=
          { vars := parameters.map (vector true) ++
              (feeds ++ ops.flatMap Operation.written).map (vector false)
            ops } }
    feeds := .strs feeds
    fetches := .list [.object .variable fetch] }

/-- Variables are called like nodes and like renamed tensors, but by other numbers than are used. -/
def lookalikes : Conversion :=
  request ["a", "b", "Sigmoid_1"] ["Log_2"]
    [{ type := "dist", inputs := [("X", ["a"]), ("Y", ["b"])], outputs := [("Out", ["Abs"])],
       attrs := [("p", .float (1 / 0))] },
     { type := "logsigmoid", inputs := [("X", ["Sigmoid_1"])], outputs := [("Out", ["Abs.2"])],
       attrs := [] }] "Abs.2"

theorem nodup_texts {vs : List Value} (h : vs.Nodup) : (vs.filterMap Value.str?).Nodup := by
  refine h.filterMap fun v w x hv hw => ?_
  cases v <;> cases w <;> simp_all [Value.str?]

/-- **Names clash though each variable has one source** and no operation writes what it reads. -/
def Conversion.Clashes (c : Conversion) : Prop :=
  ∃ p g product d, c.program = .program p ∧ c.graph = .ok g ∧
    EStateM.run (Emit.convert Registry.standard c) blank = .ok product d ∧
    p.Separate (g.inputs.map Terminal.name) ∧
    (∀ op ∈ p.operations, (op.inputs.flatMap Prod.snd).Disjoint op.written) ∧
    ¬ product.theModel.tensors.Nodup

theorem Conversion.clashes_of_passes {c : Conversion}
    (h : c.passes (fun p g product _ => p.Separate (g.inputs.map Terminal.name) ∧
      (∀ op ∈ p.operations, (op.inputs.flatMap Prod.snd).Disjoint op.written) ∧
      ¬ (product.theModel.tensors.filterMap Value.str?).Nodup) = true) : c.Clashes := by
  obtain ⟨p, g, product, d, hp, hg, hrun, hholds⟩ := Conversion.of_passes h
  obtain ⟨hseparate, hunread, hclash⟩ := of_decide_eq_true hholds
  exact ⟨p, g, product, d, hp, hg, hrun, hseparate, hunread, fun h => hclash (nodup_texts h)⟩

def fedNumber : Conversion :=
  request ["a", "Sigmoid_0"] []
    [{ type := "logsigmoid", inputs := [("X", ["a"])], outputs := [("Out", ["out"])], attrs := [] }] "out"

def fedSuccessor : Conversion :=
  request ["a", "b", "out.1"] []
    [{ type := "dist", inputs := [("X", ["a"]), ("Y", ["b"])], outputs := [("Out", ["out"])],
       attrs := [("p", .float (1 / 0))] }] "out"

def fedMark : Conversion :=
  request ["a", "b", "out@pb_w"] []
    [{ type := "box_coder", inputs := [("PriorBox", ["a"]), ("TargetBox", ["b"])],
       outputs := [("OutputBox", ["out"])],
       attrs := [("axis", .int 0), ("box_normalized", .bool true),
         ("variance", .list [.float 0.1, .float 0.1, .float 0.2, .float 0.2])] }] "out"

def listedTwice : Conversion :=
  request ["a"] []
    [{ type := "split", inputs := [("X", ["a"])], outputs := [("Out", ["out", "out"])],
       attrs := [("axis", .int 0), ("num", .int 2), ("sections", .list [.int 1, .int 1])] }] "out"

def fedTwice : Conversion :=
  request ["a", "a"] []
    [{ type := "relu", inputs := [("X", ["a"])], outputs := [("Out", ["out"])], attrs := [] }] "out"

end ModelExport
