import ModelExport.Proofs.Emission.Outcomes
import ModelExport.Proofs.SourceGraph

/-!
# Proofs/Alignment — tensors brought to one element type

    from narrow to wide     bool  uint8  int16  int32  int64  float32  float64
    looked up                 ✓            ✓      ✓      ✓       ✓

Several tensors that are joined must have one element type, the widest of theirs: the others are cast to it.  The
order that widths are looked up in lacks two of the types that models have as well, so tensors of these cannot be
aligned, not even with themselves; all others are (`aligned_widest_iff`).
-/

namespace ModelExport

open Emit List

/-! ## Element types by width -/

namespace ElementType

def code : ElementType → Int
  | bool => 0
  | int16 => 1
  | int32 => 2
  | int64 => 3
  | float16 => 4
  | float32 => 5
  | float64 => 6
  | uint8 => 20
  | int8 => 21

def modelCode : ElementType → Int
  | float32 => 1
  | uint8 => 2
  | int8 => 3
  | int16 => 5
  | int32 => 6
  | int64 => 7
  | bool => 9
  | float16 => 10
  | float64 => 11

/-- **The element types that programs share with models**, from narrow to wide. -/
def shared : List ElementType := [bool, uint8, int16, int32, int64, float32, float64]

/-- Those among them whose width is known. -/
def ranked : List ElementType := [bool, int16, int32, int64, float32]

/-- The place that the width of an element type is found at. -/
def rank (t : ElementType) : Nat := t.code.toNat

/-- The two tables of numbers overlap, but the program's number is the one that is found. -/
theorem convert_code {t : ElementType} (ht : t ∈ shared) : convert (.int t.code) = .ok (.int t.modelCode) := by
  revert t
  simp only [shared, forall_mem_cons]
  exact ⟨rfl, rfl, rfl, rfl, rfl, rfl, rfl, forall_mem_nil _⟩

theorem shared_of_ranked {t : ElementType} (ht : t ∈ ranked) : t ∈ shared := by
  revert t
  decide

theorem mem_ranked_iff {t : ElementType} (ht : t ∈ shared) : t ∈ ranked ↔ t ≠ float64 ∧ t ≠ uint8 := by
  revert t
  decide

theorem widthRank_code {t : ElementType} (ht : t ∈ ranked) : widthRank (.int t.code) = .ok t.rank := by
  revert t
  simp only [ranked, forall_mem_cons]
  exact ⟨rfl, rfl, rfl, rfl, rfl, forall_mem_nil _⟩

theorem alignable_rank {t : ElementType} (ht : t ∈ ranked) : (alignable[t.rank]?).getD 0 = t.code := by
  revert t
  simp only [ranked, forall_mem_cons]
  exact ⟨rfl, rfl, rfl, rfl, rfl, forall_mem_nil _⟩

theorem idxOf_le_iff {t u : ElementType} (ht : t ∈ ranked) (hu : u ∈ ranked) :
    shared.idxOf t ≤ shared.idxOf u ↔ t.rank ≤ u.rank := by
  have hall : ∀ t ∈ ranked, ∀ u ∈ ranked, (shared.idxOf t ≤ shared.idxOf u ↔ t.rank ≤ u.rank) := by decide
  exact hall t ht u hu

theorem rank_inj {t u : ElementType} (ht : t ∈ ranked) (hu : u ∈ ranked) : t.rank = u.rank ↔ t = u := by
  have hall : ∀ t ∈ ranked, ∀ u ∈ ranked, (t.rank = u.rank ↔ t = u) := by decide
  exact hall t ht u hu

end ElementType

/-! ## What alignment is -/

/-- **The widest of the element types** of some tensors. -/
def Widest (ts : List (String × ElementType)) (w : ElementType) : Prop :=
  (∃ t ∈ ts, t.2 = w) ∧ ∀ t ∈ ts, ElementType.shared.idxOf t.2 ≤ ElementType.shared.idxOf w

/-- **Tensors brought to an element type**: those that have it keep their names, and each of the others is read by a
node of its own that casts it. -/
inductive CastTo (w : ElementType) : List (String × ElementType) → List Value → List Node → Prop
  | nil : CastTo w [] [] []
  | keep {x : String} {ts : List (String × ElementType)} {vs : List Value} {ns : List Node} :
      CastTo w ts vs ns → CastTo w ((x, w) :: ts) (.str x :: vs) ns
  | cast {x : String} {t : ElementType} {n : Node} {ts : List (String × ElementType)} {vs : List Value}
      {ns : List Node} : t ≠ w → n.Is "Cast" [("to", .int w.modelCode)] [.str x] [.str n.name] →
      CastTo w ts vs ns → CastTo w ((x, t) :: ts) (.str n.name :: vs) (n :: ns)

/-- **Tensors aligned** by a step: it brings them to the widest of their types, and where all types are equal nothing
changes. -/
structure AlignedBy (x : Emit Value) (ts : List (String × ElementType)) (d d' : Draft) (vs : List Value)
    (ns : List Node) : Prop where
  emission : Emission x d d' (.list vs) ns
  casts : ∃ w, Widest ts w ∧ CastTo w ts vs ns
  unchanged : (∀ t ∈ ts, ∀ u ∈ ts, t.2 = u.2) → ns = [] ∧ d' = d

/-! ## Casting -/

/-- **The narrower tensors are cast**, one after another. -/
theorem emission_castNarrow {w : ElementType} (hw : w ∈ ElementType.ranked) :
    ∀ (done ts : List (String × ElementType)) (d : Draft), (∀ t ∈ ts, t.2 ∈ ElementType.ranked) → ∃ d' vs ns,
      Emission (castNarrow (.int w.modelCode) w.rank (.strs ((done ++ ts).map Prod.fst)) done.length
        (ts.map fun t => t.2.rank)) d d' vs ns ∧ CastTo w ts vs ns ∧ ((∀ t ∈ ts, t.2 = w) → ns = [] ∧ d' = d)
  | _, [], d, _ => ⟨d, [], [], (Quiet.pure _).emission rfl, .nil, fun _ => ⟨rfl, rfl⟩⟩
  | done, (x, t) :: ts, d, hts => by
    obtain ⟨ht, hrest⟩ := forall_mem_cons.1 hts
    have hname : (Value.strs ((done ++ (x, t) :: ts).map Prod.fst)).nth done.length = .ok (.str x) := by
      change memberAt (((done ++ (x, t) :: ts).map Prod.fst).map Value.str) (done.length : Int) = _
      rw [Value.memberAt_natCast]
      simp
    have hnext : done ++ (x, t) :: ts = (done ++ [(x, t)]) ++ ts := by simp
    have hlength : (done ++ [(x, t)]).length = done.length + 1 := by simp
    by_cases heq : t = w
    · subst heq
      obtain ⟨d', vs, ns, hem, hcast, hsame⟩ := emission_castNarrow hw (done ++ [(x, t)]) ts d hrest
      rw [hlength, ← hnext] at hem
      refine ⟨d', .str x :: vs, ns, .computed hname ?_, .keep hcast, fun h =>
        hsame fun u hu => h u (mem_cons_of_mem _ hu)⟩
      rw [if_pos (beq_self_eq_true _), pure_bind]
      exact append_nil ns ▸ hem.bind ((Quiet.pure _).emission rfl)
    · let n := Node.asked "Cast" (d.count "Cast") [.str x] [.str (numbered "Cast" (d.count "Cast"))]
        [("to", .int w.modelCode)]
      have hn : Emission (node "Cast" (.list [.str x]) [("to", .int w.modelCode)]) d (d.adding n)
          (.str n.name) [n] := emission_node d rfl (Or.inr (by simp [Node.reserved]))
      obtain ⟨d', vs, ns, hem, hcast, -⟩ := emission_castNarrow hw (done ++ [(x, t)]) ts (d.adding n) hrest
      rw [hlength, ← hnext] at hem
      refine ⟨d', .str n.name :: vs, n :: ns, .computed hname ?_, .cast heq (Node.is_asked ..) hcast, fun h =>
        absurd (h _ mem_cons_self) heq⟩
      have hranks : ¬ (t.rank == w.rank) = true := by simpa using mt (ElementType.rank_inj ht hw).1 heq
      rw [if_neg hranks]
      exact hn.bind (append_nil ns ▸ hem.bind ((Quiet.pure _).emission rfl))

/-! ## Widths -/

/-- What some steps fail with, and the others do not fail, all fail with. -/
theorem mapM_eq_error {α β ε : Type} {f : α → Except ε β} {e : ε} {xs : List α}
    (hall : ∀ x ∈ xs, f x = .error e ∨ ∃ y, f x = .ok y) (hsome : ∃ x ∈ xs, f x = .error e) :
    xs.mapM f = .error e := by
  induction xs with
  | nil =>
    obtain ⟨x, hx, -⟩ := hsome
    exact absurd hx not_mem_nil
  | cons x xs ih =>
    obtain ⟨hx, hxs⟩ := forall_mem_cons.1 hall
    rw [mapM_cons]
    rcases hx with hx | ⟨y, hx⟩
    · rw [hx]
      rfl
    · obtain ⟨z, hz, hfails⟩ := hsome
      have hlater : z ∈ xs := (mem_cons.1 hz).resolve_left fun h => by
        rw [h, hx] at hfails
        cases hfails
      rw [hx, except_ok_bind, ih hxs ⟨z, hlater, hfails⟩]
      rfl

section Widths

variable {ts : List (String × ElementType)}

def typeCodes (ts : List (String × ElementType)) : Value := .ints (ts.map fun t => t.2.code)

theorem widthRanks_eq (h : ∀ t ∈ ts, t.2 ∈ ElementType.ranked) :
    widthRanks (typeCodes ts) = .ok (ts.map fun t => t.2.rank) := by
  have heach : ts.mapM (fun t => widthRank (.int t.2.code)) = .ok (ts.map fun t => t.2.rank) :=
    mapM_eq_ok fun t ht => ElementType.widthRank_code (h t ht)
  change ((ts.map fun t => t.2.code).map Value.int).mapM widthRank = _
  rw [map_map, mapM_map]
  exact heach

theorem widthRanks_error (hshared : ∀ t ∈ ts, t.2 ∈ ElementType.shared)
    (h : ∃ t ∈ ts, t.2 = .float64 ∨ t.2 = .uint8) : widthRanks (typeCodes ts) = .error .badValue := by
  have hunknown : ∀ t : ElementType, t = .float64 ∨ t = .uint8 → widthRank (.int t.code) = .error .badValue := by
    rintro t (rfl | rfl) <;> rfl
  change ((ts.map fun t => t.2.code).map Value.int).mapM widthRank = _
  rw [map_map, mapM_map]
  refine mapM_eq_error (fun t ht => ?_) ?_
  · by_cases hknown : t.2 ∈ ElementType.ranked
    · exact Or.inr ⟨_, ElementType.widthRank_code hknown⟩
    · rw [ElementType.mem_ranked_iff (hshared t ht), not_and_or, not_not, not_not] at hknown
      exact Or.inl (hunknown t.2 hknown)
  · obtain ⟨t, ht, htype⟩ := h
    exact ⟨t, ht, hunknown t.2 htype⟩

theorem exists_widest (hne : ts ≠ []) (h : ∀ t ∈ ts, t.2 ∈ ElementType.ranked) : ∃ w ∈ ElementType.ranked,
    (ts.map fun t => t.2.rank).max? = some w.rank ∧ Widest ts w := by
  obtain ⟨m, hm⟩ := Option.isSome_iff_exists.1 (isSome_max?_of_ne_nil (l := ts.map fun t => t.2.rank) (by simpa))
  obtain ⟨hmem, hmax⟩ := max?_eq_some_iff.1 hm
  obtain ⟨t, ht, rfl⟩ := mem_map.1 hmem
  refine ⟨t.2, h t ht, hm, ⟨t, ht, rfl⟩, fun u hu => ?_⟩
  exact (ElementType.idxOf_le_iff (h u hu) (h t ht)).2 (hmax _ (mem_map_of_mem hu))

/-! ## Alignment -/

def tensorNames (ts : List (String × ElementType)) : Value := .strs (ts.map Prod.fst)

theorem length_given (ts : List (String × ElementType)) :
    (tensorNames ts).length = .ok ts.length ∧ (typeCodes ts).length = .ok ts.length := by
  simp [tensorNames, typeCodes, Value.strs, Value.ints, Value.length]

/-- **Tensors of known widths are aligned.** -/
theorem exists_alignedBy (hne : ts ≠ []) (h : ∀ t ∈ ts, t.2 ∈ ElementType.ranked) (d : Draft) :
    ∃ d' vs ns, AlignedBy (align (tensorNames ts) (typeCodes ts)) ts d d' vs ns := by
  obtain ⟨hnames, htypes⟩ := length_given ts
  obtain ⟨w, hw, hmax, hwidest⟩ := exists_widest hne h
  obtain ⟨d', vs, ns, hem, hcast, hsame⟩ := emission_castNarrow hw [] ts d h
  have htarget : ElementType.convert (.int ((alignable[w.rank]?).getD 0)) = .ok (.int w.modelCode) := by
    rw [ElementType.alignable_rank hw, ElementType.convert_code (ElementType.shared_of_ranked hw)]
  refine ⟨d', vs, ns, ?_, ⟨w, hwidest, hcast⟩, fun hequal => ?_⟩
  · unfold align
    refine .computed hnames (.computed htypes ?_)
    rw [if_neg (by simp)]
    refine .computed (widthRanks_eq h) ?_
    rw [hmax]
    exact .computed htarget (append_nil ns ▸ hem.bind ((Quiet.pure _).emission rfl))
  · obtain ⟨⟨u, hu, rfl⟩, -⟩ := hwidest
    exact hsame fun t ht => hequal t ht u hu

theorem run_align_error (hshared : ∀ t ∈ ts, t.2 ∈ ElementType.shared)
    (h : ∃ t ∈ ts, t.2 = .float64 ∨ t.2 = .uint8) (d : Draft) :
    EStateM.run (align (tensorNames ts) (typeCodes ts)) d = .error (.slip .badValue) d := by
  obtain ⟨hnames, htypes⟩ := length_given ts
  unfold align
  rw [run_computed hnames, run_computed htypes, if_neg (by simp), widthRanks_error hshared h]
  rfl

end Widths

/-- **Tensors are aligned if and only if** the widths of all their types are known.  Where one is not nothing is
aligned, and nothing changes. -/
theorem aligned_widest_iff {ts : List (String × ElementType)} (hne : ts ≠ [])
    (hshared : ∀ t ∈ ts, t.2 ∈ ElementType.shared) (d : Draft) :
    ((∃ d' vs ns, AlignedBy (align (tensorNames ts) (typeCodes ts)) ts d d' vs ns) ↔
      ∀ t ∈ ts, t.2 ≠ .float64 ∧ t.2 ≠ .uint8) ∧
    ((∃ t ∈ ts, t.2 = .float64 ∨ t.2 = .uint8) →
      EStateM.run (align (tensorNames ts) (typeCodes ts)) d = .error (.slip .badValue) d) := by
  refine ⟨⟨fun ⟨d', vs, ns, haligned⟩ t ht => ?_, fun hknown => ?_⟩, fun h => run_align_error hshared h d⟩
  · rw [← not_or]
    intro htype
    have hrun := haligned.emission.puts d.nodes
    rw [run_align_error hshared ⟨t, ht, htype⟩ d] at hrun
    cases hrun
  · exact exists_alignedBy hne (fun t ht => (ElementType.mem_ranked_iff (hshared t ht)).2 (hknown t ht)) d

/-- Integers and floats are aligned, and a tensor of doubles is not. -/
theorem aligned_widest_joined :
    (∃ d' vs ns, AlignedBy (align (tensorNames [("x", .int64), ("y", .float32)])
      (typeCodes [("x", .int64), ("y", .float32)])) [("x", .int64), ("y", .float32)] { opset := 11 } d' vs ns) ∧
    EStateM.run (align (tensorNames [("x", .float64)]) (typeCodes [("x", .float64)])) { opset := 11 } =
      .error (.slip .badValue) { opset := 11 } :=
  ⟨(aligned_widest_iff (by decide) (by decide) _).1.2 (by decide),
    (aligned_widest_iff (by decide) (by decide) _).2 (by decide)⟩

end ModelExport
