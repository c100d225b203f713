import ModelExport.Proofs.Interface

/-!
# Proofs/Rebuilding — an interface in place of another

    before   fetch · a · feed · b · fetch          after   fₙ … f₁ f₀ · a · b · y₀ y₁ … yₘ

Operations of the old interface may stand anywhere; rebuilding removes them and no other one
(`foldl_eraseIdx_interfacePositions`), and writes the new interface around what is left.  Of the
variables only the two that stand for all inputs and for all outputs are written, so doing it again
changes nothing (`rebuild_replaces_interface`).
-/

namespace ModelExport

open List

variable {v : Variable} {vars : List Variable}

/-! ## Declaring variables -/

/-- Variables as a table under their names. -/
def varTable (vars : List Variable) : List (String × Variable) := vars.map fun v => (v.name, v)

theorem get?_varTable (vars : List Variable) (x : String) :
    Assoc.get? (varTable vars) x = vars.find? fun v => v.name == x := by
  rw [Assoc.get?, varTable, find?_map, Option.map_map]
  exact Option.map_id'

/-- **To declare a variable is to write it under its name.** -/
theorem varTable_declareIn (vars : List Variable) (v : Variable) :
    varTable (declareIn vars v) = Assoc.insert (varTable vars) v.name v := by
  have hcontains : Assoc.contains (varTable vars) v.name = vars.any fun w => w.name == v.name := by
    rw [Assoc.contains, varTable, any_map]
    rfl
  rw [declareIn, Assoc.insert, hcontains]
  split
  · rw [varTable, varTable, map_map, map_map]
    refine map_congr_left fun w _ => ?_
    dsimp only [Function.comp]
    split
    · rfl
    · rfl
  · rw [varTable, varTable, map_append]
    rfl

theorem find?_declareIn (vars : List Variable) (v : Variable) (x : String) :
    (declareIn vars v).find? (fun w => w.name == x) =
      if x = v.name then some v else vars.find? fun w => w.name == x := by
  rw [← get?_varTable, ← get?_varTable, varTable_declareIn, Assoc.get?_insert]

/-- A variable is declared, and no other one under its name. -/
structure Declared (vars : List Variable) (v : Variable) : Prop where
  mem : v ∈ vars
  only : ∀ w ∈ vars, w.name = v.name → w = v

theorem mem_declareIn {w : Variable} : w ∈ declareIn vars v ↔ w = v ∨ w ∈ vars ∧ w.name ≠ v.name := by
  unfold declareIn
  split
  · rename_i hany
    obtain ⟨u, hu, huv⟩ := any_eq_true.1 hany
    rw [mem_map]
    constructor
    · rintro ⟨t, ht, rfl⟩
      split
      · exact Or.inl rfl
      · rename_i hname
        exact Or.inr ⟨ht, fun h => hname (beq_iff_eq.2 h)⟩
    · rintro (rfl | ⟨hw, hname⟩)
      · exact ⟨u, hu, if_pos huv⟩
      · exact ⟨w, hw, if_neg fun h => hname (beq_iff_eq.1 h)⟩
  · rename_i hnone
    rw [mem_append, mem_singleton]
    constructor
    · rintro (hw | rfl)
      · exact Or.inr ⟨hw, fun h => hnone (any_eq_true.2 ⟨w, hw, beq_iff_eq.2 h⟩)⟩
      · exact Or.inl rfl
    · rintro (rfl | ⟨hw, -⟩)
      · exact Or.inr rfl
      · exact Or.inl hw

theorem declared_declareIn (vars : List Variable) (v : Variable) : Declared (declareIn vars v) v where
  mem := mem_declareIn.2 (Or.inl rfl)
  only := fun _ hw hname => (mem_declareIn.1 hw).resolve_right fun h => h.2 hname

theorem Declared.declareIn_other {u : Variable} (h : Declared vars u) (hne : u.name ≠ v.name) :
    Declared (declareIn vars v) u where
  mem := mem_declareIn.2 (Or.inr ⟨h.mem, hne⟩)
  only := fun w hw hname => by
    rcases mem_declareIn.1 hw with rfl | ⟨hw, -⟩
    · exact absurd hname.symm hne
    · exact h.only w hw hname

/-- **To declare a variable again changes nothing.** -/
theorem Declared.declareIn_eq (h : Declared vars v) : declareIn vars v = vars := by
  have hany : (vars.any fun w => w.name == v.name) = true :=
    any_eq_true.2 ⟨v, h.mem, beq_self_eq_true _⟩
  rw [declareIn, if_pos hany]
  conv_rhs => rw [← map_id vars]
  refine map_congr_left fun w hw => ?_
  split
  · rename_i hname
    exact (h.only w hw (beq_iff_eq.1 hname)).symm
  · rfl

/-! ## Variables of a rebuilt program -/

/-- Does a variable stand for all inputs, or for all outputs? -/
def Variable.isHolder (v : Variable) : Bool := v.name == "feed" || v.name == "fetch"

theorem filter_declareIn (hv : v.isHolder = true) (vars : List Variable) :
    ((declareIn vars v).filter fun w => !w.isHolder) = vars.filter fun w => !w.isHolder := by
  unfold declareIn
  split
  · rw [filter_map]
    have hsame : ((fun w => !Variable.isHolder w) ∘ fun w => if w.name == v.name then v else w) =
        fun w => !Variable.isHolder w := by
      ext w
      dsimp only [Function.comp]
      split
      · rename_i hname
        rw [Variable.isHolder, Variable.isHolder, beq_iff_eq.1 hname]
      · rfl
    rw [hsame]
    conv_rhs => rw [← map_id (vars.filter _)]
    refine map_congr_left fun w hw => if_neg fun hname => ?_
    have hw := (mem_filter.1 hw).2
    rw [Variable.isHolder, beq_iff_eq.1 hname] at hw
    rw [Variable.isHolder] at hv
    rw [hv] at hw
    cases hw
  · rw [filter_append, filter_cons_of_neg (by rw [hv]; decide), filter_nil,
      append_nil]

namespace Program

variable (p : Program) (feeds fetches : List String)

theorem filter_vars_rebuilt :
    ((p.rebuilt feeds fetches).global.vars.filter fun v => !v.isHolder) =
      p.global.vars.filter fun v => !v.isHolder := by
  rw [rebuilt, filter_declareIn rfl, holdFeeds]
  split
  · rfl
  · exact filter_declareIn rfl _

theorem var?_rebuilt (x : String) :
    (p.rebuilt feeds fetches).global.var? x =
      if x = "fetch" then some (holderVar "fetch")
      else if x = "feed" ∧ feeds ≠ [] then some (holderVar "feed") else p.global.var? x := by
  have hfetch := find?_declareIn (holdFeeds p.global.vars feeds) (holderVar "fetch") x
  refine hfetch.trans ?_
  congr 1
  rw [holdFeeds]
  cases feeds with
  | nil => simp [Block.var?]
  | cons name rest =>
    refine (find?_declareIn p.global.vars (holderVar "feed") x).trans (if_congr ?_ rfl rfl)
    exact (and_iff_left (cons_ne_nil name rest)).symm

theorem vars_rebuilt_again :
    declareIn (holdFeeds (p.rebuilt feeds fetches).global.vars feeds) (holderVar "fetch") =
      (p.rebuilt feeds fetches).global.vars := by
  have hfetch : Declared (p.rebuilt feeds fetches).global.vars (holderVar "fetch") :=
    declared_declareIn _ _
  cases feeds with
  | nil => exact hfetch.declareIn_eq
  | cons name rest =>
    have hfeed : Declared (p.rebuilt (name :: rest) fetches).global.vars (holderVar "feed") :=
      (declared_declareIn p.global.vars _).declareIn_other (by decide)
    have hheld : holdFeeds (p.rebuilt (name :: rest) fetches).global.vars (name :: rest) = _ :=
      hfeed.declareIn_eq
    rw [hheld, hfetch.declareIn_eq]

/-! ## Operations of a rebuilt program -/

/-- **What is left of a rebuilt program without its interface** is what was left before. -/
theorem inner_rebuilt :
    ((p.rebuilt feeds fetches).global.ops.filter fun op => !op.isInterface) =
      p.global.ops.filter fun op => !op.isInterface := by
  have hfeeds : ((feedsFrom 0 feeds).reverse.filter fun op => !op.isInterface) = [] := by
    rw [filter_eq_nil_iff]
    intro op hop
    obtain ⟨e, -, rfl⟩ := mem_map.1 (mem_reverse.1 hop)
    exact Bool.false_ne_true
  have hfetches : ((fetchesOf fetches).filter fun op => !op.isInterface) = [] := by
    rw [filter_eq_nil_iff]
    intro op hop
    obtain ⟨i, hi, rfl⟩ := mem_mapIdx.1 hop
    exact Bool.false_ne_true
  rw [rebuilt, filter_append, filter_append, hfeeds, hfetches, filter_filter,
    nil_append, append_nil]
  simp only [Bool.and_self]

theorem rebuilt_rebuilt :
    (p.rebuilt feeds fetches).rebuilt feeds fetches = p.rebuilt feeds fetches := by
  have hvars := vars_rebuilt_again p feeds fetches
  have hops := inner_rebuilt p feeds fetches
  conv_lhs => rw [rebuilt]
  rw [hvars, hops]
  rfl

end Program

/-! ## The whole -/

/-- **An interface is replaced, and nothing else.**  The operations are the new feeds, the last one
first and each with its own number, what stood between the old ones, and the new fetches in order;
other blocks and all variables but the two holders stay; and to do it again changes nothing. -/
theorem rebuild_replaces_interface (p : Program) (feeds fetches : List String)
    (hfeeds : ∀ x ∈ feeds, (p.global.var? x).isSome = true) :
    ∃ q, (ProgramEdit.rebuild feeds fetches).run p = .ok q ∧
      q.global.ops = (feeds.mapIdx fun i x => feedOp "feed" i x).reverse ++
        (p.global.ops.filter fun op => !op.isInterface) ++
        (fetches.mapIdx fun i x => fetchOp "fetch" i x) ∧
      q.others = p.others ∧
      (q.global.vars.filter fun v => !v.isHolder) = (p.global.vars.filter fun v => !v.isHolder) ∧
      (∀ x, q.global.var? x =
        if x = "fetch" then some (holderVar "fetch")
        else if x = "feed" ∧ feeds ≠ [] then some (holderVar "feed") else p.global.var? x) ∧
      (ProgramEdit.rebuild feeds fetches).run q = .ok q := by
  have hfound : ∀ x ∈ feeds, ((p.rebuilt feeds fetches).global.var? x).isSome = true := by
    intro x hx
    rw [p.var?_rebuilt]
    split
    · rfl
    · split
      · rfl
      · exact hfeeds x hx
  refine ⟨p.rebuilt feeds fetches, ProgramEdit.run_rebuild_eq fetches hfeeds, ?_, rfl,
    p.filter_vars_rebuilt feeds fetches, p.var?_rebuilt feeds fetches, ?_⟩
  · rw [← feedsFrom_zero]
    rfl
  · rw [ProgramEdit.run_rebuild_eq fetches hfound, p.rebuilt_rebuilt]

/-- Operations between those of an interface that stands in their midst. -/
def Program.interleaved : Program :=
  { global :=
      { vars := [{ name := "x", shape := [2] }, { name := "fetch", shape := [7] }, { name := "y" }, { name := "z" }]
        ops := [fetchOp "fetch" 0 "y",
          { type := "relu", inputs := [("X", ["x"])], outputs := [("Out", ["y"])], attrs := [] },
          feedOp "feed" 0 "z", feedOp "feed" 1 "x",
          { type := "tanh", inputs := [("X", ["y"])], outputs := [("Out", ["z"])], attrs := [] },
          fetchOp "fetch" 1 "z"] }
    others := [{ vars := [], ops := [feedOp "feed" 0 "x"] }] }

/-- **Operations stay in order when the interface around them goes.** -/
theorem rebuild_replaces_interface_interleaved :
    (∀ x ∈ ["x", "y"], (Program.interleaved.global.var? x).isSome = true) ∧
      ∃ q, (ProgramEdit.rebuild ["x", "y"] ["z"]).run Program.interleaved = .ok q ∧
        q.global.ops.map Operation.type = ["feed", "feed", "relu", "tanh", "fetch"] ∧
        (q.global.ops.map Operation.outputs).take 2 = [[("Out", ["y"])], [("Out", ["x"])]] ∧
        q.global.vars.map Variable.name = ["x", "fetch", "y", "z", "feed"] ∧
        q.others.length = 1 ∧ (ProgramEdit.rebuild ["x", "y"] ["z"]).run q = .ok q := by
  have hfeeds : ∀ x ∈ ["x", "y"], (Program.interleaved.global.var? x).isSome = true := by decide
  obtain ⟨q, hq, hops, hothers, -, -, hagain⟩ :=
    rebuild_replaces_interface Program.interleaved ["x", "y"] ["z"] hfeeds
  refine ⟨hfeeds, q, hq, ?_, ?_, ?_, ?_, hagain⟩
  · rw [hops]
    decide
  · rw [hops]
    decide
  · have hrun : (ProgramEdit.rebuild ["x", "y"] ["z"]).run Program.interleaved =
        .ok (Program.interleaved.rebuilt ["x", "y"] ["z"]) := ProgramEdit.run_rebuild_eq _ hfeeds
    obtain rfl := Except.ok.inj (hrun.symm.trans hq)
    decide
  · rw [hothers]
    rfl

end ModelExport
