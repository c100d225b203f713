import ModelExport.Proofs.Emission.Composites

/-!
# Proofs/Interface — an interface written and read back

    feeds      f₀ f₁ … fₙ          fetches      y₀ y₁ … yₘ
    ops        fₙ … f₁ f₀   ·   inner operations   ·   y₀ y₁ … yₘ

Feed operations are put in front one by one, so the last one stands first, and each carries its own
number.  A conversion that takes its interface from the program reads the operations in their order
and does not look at the numbers: outputs come back as they were given, and inputs in reverse
(`inputs_convertLoaded_rebuild_iff`).
-/

namespace ModelExport

open Emit List

/-! ## Writing -/

/-- Variables with one more, in place of one of the same name. -/
def declareIn (vars : List Variable) (v : Variable) : List Variable :=
  if vars.any fun w => w.name == v.name then vars.map fun w => if w.name == v.name then v else w
  else vars ++ [v]

namespace Block

/-- A variable of a name that is declared is still there. -/
theorem isSome_var?_declare {b : Block} {x : String} (h : (b.var? x).isSome = true) (v : Variable) :
    ((b.declare v).var? x).isSome = true := by
  rw [var?, find?_isSome] at h ⊢
  obtain ⟨w, hw, hx⟩ := h
  unfold declare
  split
  · by_cases hv : (w.name == v.name) = true
    · refine ⟨v, mem_map.2 ⟨w, hw, if_pos hv⟩, ?_⟩
      rwa [← beq_iff_eq.1 hv]
    · exact ⟨w, mem_map.2 ⟨w, hw, if_neg hv⟩, hx⟩
  · exact ⟨w, mem_append_left _ hw, hx⟩

theorem declare_eq (b : Block) (v : Variable) :
    b.declare v = { vars := declareIn b.vars v, ops := b.ops } := by
  unfold declare declareIn
  split <;> rfl

theorem ops_declare (b : Block) (v : Variable) : (b.declare v).ops = b.ops := by
  rw [declare_eq]

end Block

def feedsFrom (i : Nat) (names : List String) : List Operation :=
  (names.zipIdx i).map fun e => feedOp "feed" e.2 e.1

def fetchesOf (names : List String) : List Operation := names.mapIdx fun i name => fetchOp "fetch" i name

def Program.withOps (p : Program) (ops : List Operation) : Program :=
  { p with global := { vars := p.global.vars, ops } }

/-- Variables with the one that stands for all inputs, when there are any. -/
def holdFeeds (vars : List Variable) (feeds : List String) : List Variable :=
  if feeds.isEmpty then vars else declareIn vars (holderVar "feed")

/-- The program with a new interface in place of the one it has. -/
def Program.rebuilt (p : Program) (feeds fetches : List String) : Program :=
  { p with global :=
      { vars := declareIn (holdFeeds p.global.vars feeds) (holderVar "fetch")
        ops := (feedsFrom 0 feeds).reverse ++ (p.global.ops.filter fun op => !op.isInterface) ++
          fetchesOf fetches } }

namespace ProgramEdit

theorem run_prependFrom {names : List String} {i : Nat} {p : Program}
    (h : ∀ x ∈ names, (p.global.var? x).isSome = true) :
    EStateM.run (prependFrom "feed" i names) p =
      .ok () (p.withOps ((feedsFrom i names).reverse ++ p.global.ops)) := by
  induction names generalizing i p with
  | nil => rfl
  | cons name rest ih =>
    obtain ⟨hname, hrest⟩ := forall_mem_cons.1 h
    have hfound : (p.global.var? name).isNone = false := by
      rwa [← Option.not_isSome, Bool.not_eq_false']
    have hstep : EStateM.run (prependFrom "feed" i (name :: rest)) p =
        EStateM.run (prependFrom "feed" (i + 1) rest)
          (p.withOps (feedOp "feed" i name :: p.global.ops)) := by
      change EStateM.run (if (p.global.var? name).isNone = true then _ else _) p = _
      rw [hfound]
      rfl
    have hoperations : (feedsFrom (i + 1) rest).reverse ++ feedOp "feed" i name :: p.global.ops =
        (feedsFrom i (name :: rest)).reverse ++ p.global.ops := by
      rw [feedsFrom, feedsFrom, zipIdx_cons, map_cons, reverse_cons, append_assoc]
      rfl
    have hdone := ih (i := i + 1) (p := p.withOps (feedOp "feed" i name :: p.global.ops)) hrest
    rw [hstep, hdone, ← hoperations]
    rfl

theorem run_prependFeeds {names : List String} {p : Program}
    (h : ∀ x ∈ names, (p.global.var? x).isSome = true) :
    EStateM.run (prependFeeds names) p =
      .ok () { p with global :=
        { vars := holdFeeds p.global.vars names, ops := (feedsFrom 0 names).reverse ++ p.global.ops } } := by
  cases names with
  | nil => rfl
  | cons name rest =>
    have hdeclared : ∀ x ∈ name :: rest,
        ((p.global.declare (holderVar "feed")).var? x).isSome = true :=
      fun x hx => Block.isSome_var?_declare (h x hx) _
    have hrun := run_prependFrom (i := 0)
      (p := { p with global := p.global.declare (holderVar "feed") }) hdeclared
    rw [Block.declare_eq] at hrun
    refine Eq.trans ?_ hrun
    rw [← Block.declare_eq]
    rfl

theorem run_removeOps (positions : List Nat) (p : Program) :
    EStateM.run (removeOps positions) p =
      .ok () (p.withOps (positions.foldl List.eraseIdx p.global.ops)) := by
  induction positions generalizing p with
  | nil => rfl
  | cons i rest ih => exact ih (p.withOps (p.global.ops.eraseIdx i))

/-- **Removal from the last position on** takes away the operations of the interface and no other. -/
theorem foldl_eraseIdx_interfacePositions (front ops : List Operation) :
    (interfacePositions front.length ops).reverse.foldl List.eraseIdx (front ++ ops) =
      front ++ ops.filter fun op => !op.isInterface := by
  induction ops generalizing front with
  | nil => rfl
  | cons op rest ih =>
    -- positions behind `op` are counted with `op` still in front of them
    have hbehind := ih (front ++ [op])
    rw [length_append, append_assoc, append_assoc] at hbehind
    by_cases hop : op.isInterface = true
    · rw [interfacePositions, if_pos hop, reverse_cons, foldl_append]
      refine (congrArg (fun ops => ops.eraseIdx front.length) hbehind).trans ?_
      rw [eraseIdx_append_of_length_le (Nat.le_refl _), Nat.sub_self,
        filter_cons_of_neg (by rw [hop]; decide)]
      rfl
    · rw [interfacePositions, if_neg hop,
        filter_cons_of_pos (by rw [Bool.eq_false_iff.2 hop]; decide)]
      exact hbehind

theorem run_dropInterface (p : Program) :
    EStateM.run dropInterface p =
      .ok () (p.withOps (p.global.ops.filter fun op => !op.isInterface)) := by
  have hremoved := foldl_eraseIdx_interfacePositions [] p.global.ops
  rw [length_nil, nil_append, nil_append] at hremoved
  rw [← hremoved]
  exact run_removeOps _ p

theorem run_rebuild_eq {feeds : List String} {p : Program} (fetches : List String)
    (h : ∀ x ∈ feeds, (p.global.var? x).isSome = true) :
    (rebuild feeds fetches).run p = .ok (p.rebuilt feeds fetches) := by
  have hfed := run_prependFeeds (p := p.withOps (p.global.ops.filter fun op => !op.isInterface)) h
  have hrun : EStateM.run (rebuild feeds fetches) p =
      EStateM.run (prependFeeds feeds >>= fun _ => appendFetches fetches)
        (p.withOps (p.global.ops.filter fun op => !op.isInterface)) := by
    rw [rebuild, EStateM.run_bind, run_dropInterface]
  rw [run, hrun, EStateM.run_bind, hfed]
  dsimp only [appendFetches, modifyGlobal, EStateM.run_modify]
  rw [Block.declare_eq]
  rfl

/-- **The program with a new interface**: feeds in front, the last one first, and fetches at the end. -/
theorem run_rebuild {feeds : List String} {p : Program} (fetches : List String)
    (h : ∀ x ∈ feeds, (p.global.var? x).isSome = true) :
    ∃ q, (rebuild feeds fetches).run p = .ok q ∧
      q.global.ops = (feedsFrom 0 feeds).reverse ++ (p.global.ops.filter fun op => !op.isInterface) ++
        fetchesOf fetches :=
  ⟨_, run_rebuild_eq fetches h, rfl⟩

end ProgramEdit

/-! ## Reading -/

theorem Block.name_of_var {b : Block} {x : String} {v : Variable} (h : b.var (.str x) = .ok v) :
    v.name = x := by
  rw [Block.var] at h
  split at h
  · rename_i w hw
    obtain rfl := Except.ok.inj h
    have hname := find?_some (p := fun v : Variable => v.name == x) hw
    exact beq_iff_eq.1 hname
  · cases h

/-- **An interface is read off in the order of the operations.** -/
theorem interfaceOf_ok {b : Block} {ops : List Operation} {ins outs : List Value}
    (h : interfaceOf b ops = .ok (ins, outs)) :
    ∃ feeds fetches : List String,
      ins = feeds.map .str ∧ outs = fetches.map (.object .variable) ∧
      ((ops.filter fun op => op.type == "feed").map fun op => firstOf op.outputs "Out") = feeds.map .ok ∧
      ((ops.filter fun op => op.type == "fetch").map fun op => firstOf op.inputs "X") = fetches.map .ok := by
  induction ops generalizing ins outs with
  | nil =>
    obtain ⟨rfl, rfl⟩ := Prod.mk.inj (Except.ok.inj h)
    exact ⟨[], [], rfl, rfl, rfl, rfl⟩
  | cons op rest ih =>
    unfold interfaceOf at h
    split at h
    · rename_i hfeed
      obtain ⟨name, hname, h₁⟩ := except_bind_ok h
      obtain ⟨⟨ins', outs'⟩, hrest, h₂⟩ := except_bind_ok h₁
      obtain ⟨rfl, rfl⟩ := Prod.mk.inj (Except.ok.inj h₂)
      obtain ⟨feeds, fetches, rfl, rfl, hfeeds, hfetches⟩ := ih hrest
      have hno : ¬ (op.type == "fetch") = true := by rw [beq_iff_eq.1 hfeed]; decide
      refine ⟨name :: feeds, fetches, rfl, rfl, ?_, ?_⟩
      · rw [filter_cons_of_pos (p := fun op : Operation => op.type == "feed") hfeed, map_cons,
          hname, hfeeds, map_cons]
      · rw [filter_cons_of_neg (p := fun op : Operation => op.type == "fetch") hno, hfetches]
    · rename_i hfeed
      split at h
      · rename_i hfetch
        obtain ⟨name, hname, h₁⟩ := except_bind_ok h
        obtain ⟨v, hv, h₂⟩ := except_bind_ok h₁
        obtain ⟨⟨ins', outs'⟩, hrest, h₃⟩ := except_bind_ok h₂
        obtain ⟨rfl, rfl⟩ := Prod.mk.inj (Except.ok.inj h₃)
        obtain ⟨feeds, fetches, rfl, rfl, hfeeds, hfetches⟩ := ih hrest
        refine ⟨feeds, name :: fetches, rfl, ?_, ?_, ?_⟩
        · rw [Block.name_of_var hv, map_cons]
        · rw [filter_cons_of_neg (p := fun op : Operation => op.type == "feed") hfeed, hfeeds]
        · rw [filter_cons_of_pos (p := fun op : Operation => op.type == "fetch") hfetch,
            map_cons, hname, hfetches, map_cons]
      · rename_i hfetch
        obtain ⟨feeds, fetches, rfl, rfl, hfeeds, hfetches⟩ := ih h
        refine ⟨feeds, fetches, rfl, rfl, ?_, ?_⟩
        · rw [filter_cons_of_neg (p := fun op : Operation => op.type == "feed") hfeed, hfeeds]
        · rw [filter_cons_of_neg (p := fun op : Operation => op.type == "fetch") hfetch, hfetches]

theorem map_of_mapM_ok {α β γ ε : Type} {f : α → Except ε β} {g : β → γ} {k : α → γ} {xs : List α}
    {ys : List β} (hf : ∀ x y, f x = .ok y → g y = k x) (h : xs.mapM f = .ok ys) :
    ys.map g = xs.map k := by
  induction xs generalizing ys with
  | nil =>
    obtain rfl := Except.ok.inj h
    rfl
  | cons x xs ih =>
    rw [mapM_cons] at h
    obtain ⟨y, hy, h₁⟩ := except_bind_ok h
    obtain ⟨zs, hzs, h₂⟩ := except_bind_ok h₁
    obtain rfl := Except.ok.inj h₂
    rw [map_cons, map_cons, hf x y hy, ih hzs]

theorem Conversion.feedNames_list {xs : List Value} {v : Value} (h : feedNames (.list xs) = .ok v) :
    v = .list xs := by
  simp only [feedNames] at h
  split at h
  · cases h
  · exact (Except.ok.inj h).symm
  · cases h

theorem Conversion.fetchVariables_list {xs : List Value} {v : Value}
    (h : fetchVariables (.list xs) = .ok v) : v = .list xs := by
  simp only [fetchVariables] at h
  split at h
  · cases h
  · exact (Except.ok.inj h).symm
  · cases h

theorem SourceGraph.name_of_terminal {b : Block} {x : String} {t : Terminal}
    (h : terminal b (.str x) = .ok t) : t.name = x := by
  obtain ⟨v, hv, ht⟩ := except_bind_ok h
  rw [← Except.ok.inj ht]
  exact Block.name_of_var hv

/-- **The terminals of a graph** bear the names that were asked for. -/
theorem Conversion.terminals_of_graph {c : Conversion} {feeds fetches : List String} {g : SourceGraph}
    (hfeeds : c.feeds = .list (feeds.map .str)) (hfetches : c.fetches = .list (fetches.map (.object .variable)))
    (h : c.graph = .ok g) :
    g.inputs.map Terminal.name = feeds ∧ g.outputs.map Terminal.name = fetches := by
  unfold graph at h
  split at h
  · cases h
  · rename_i p hp
    obtain ⟨ins, hins, h₁⟩ := except_bind_ok h
    obtain ⟨outs, houts, h₂⟩ := except_bind_ok h₁
    rw [hfeeds] at hins
    rw [hfetches] at houts
    obtain rfl := feedNames_list hins
    obtain rfl := fetchVariables_list houts
    split at h₂
    · rename_i g' hg
      obtain rfl := Except.ok.inj h₂
      obtain ⟨weights, hweights, h₃⟩ := except_bind_ok hg
      obtain ⟨names, hnames, h₄⟩ := except_bind_ok h₃
      obtain ⟨inputs, hinputs, h₅⟩ := except_bind_ok h₄
      obtain ⟨outputs, houtputs, h₆⟩ := except_bind_ok h₅
      obtain rfl := Except.ok.inj h₆
      obtain rfl := Except.ok.inj hnames
      have hlists := SourceGraph.lists_build p weights inputs (outputs.map SourceGraph.terminalOf)
      rw [hlists.inputs, hlists.outputs]
      rw [mapM_map] at hinputs
      have houtputs : (fetches.map (.object .variable)).mapM (variableOf p.global) = .ok outputs := houtputs
      rw [mapM_map] at houtputs
      refine ⟨?_, ?_⟩
      · rw [map_of_mapM_ok (fun x t => SourceGraph.name_of_terminal) hinputs, map_id']
      · rw [map_map]
        exact (map_of_mapM_ok (fun x v => Block.name_of_var) houtputs).trans (map_id' _)
    · cases h₂

/-- **A model has the inputs and outputs that were asked for**, in their order. -/
theorem terminals_of_convert {composites : List (Value × Composite)} {c : Conversion} {s : Session}
    {feeds fetches : List String} {product : Product} {d : Draft}
    (hfeeds : c.feeds = .list (feeds.map .str)) (hfetches : c.fetches = .list (fetches.map (.object .variable)))
    (h : EStateM.run (convert (Registry.withComposites composites) c) (s.draft c.options.opset) =
      .ok product d) :
    product.theModel.inputs.map ValueInfo.name = feeds.map .str ∧
      product.theModel.outputs.map ValueInfo.name = fetches.map .str := by
  obtain ⟨g, d₁, d₂, hg, hbuild, hrename, hmodel, -⟩ := convert_ok h
  obtain ⟨hins, houts⟩ := Conversion.terminals_of_graph hfeeds hfetches hg
  obtain ⟨p, weights, inputs, outputs, -, -, rfl⟩ := Conversion.graph_ok hg
  have hplain := (SourceGraph.lists_build p weights inputs outputs).plain
  have hbuilt := builtInTurn_of_ok (Draft.tidy_empty _ _ _) hplain hbuild
  obtain ⟨-, rfl⟩ := Emit.renameInPlace_ok hbuilt.tidy.kept hrename
  rw [← (EStateM.Result.ok.inj hmodel).1]
  refine ⟨hbuilt.inputs.trans ?_, hbuilt.outputs.trans ?_⟩
  · rw [← hins, map_map]
    rfl
  · rw [← houts, map_map]
    rfl

/-! ## There and back -/

theorem Program.ops_reshapeAll {shapes : List (Value × Value)} {p q : Program}
    (h : p.reshapeAll shapes = .ok q) : q.global.ops = p.global.ops := by
  induction shapes generalizing p with
  | nil =>
    obtain rfl := Except.ok.inj h
    rfl
  | cons shape rest ih =>
    obtain ⟨v, hv, h₁⟩ := except_bind_ok h
    obtain ⟨members, hmembers, h₂⟩ := except_bind_ok h₁
    obtain ⟨dims, hdims, h₃⟩ := except_bind_ok h₂
    rw [ih h₃]
    exact Block.ops_declare _ _

def Block.feeds (b : Block) : List Operation := b.ops.filter fun op => op.type == "feed"

def Block.fetches (b : Block) : List Operation := b.ops.filter fun op => op.type == "fetch"

theorem filter_inner_eq_nil (ops : List Operation) (type : String) (htype : Node.isInterface type = true) :
    ((ops.filter fun op => !op.isInterface).filter fun op => op.type == type) = [] := by
  rw [filter_eq_nil_iff]
  intro op hop heq
  have hinner := (mem_filter.1 hop).2
  rw [Operation.isInterface, beq_iff_eq.1 heq, htype] at hinner
  cases hinner

theorem feeds_rebuilt {b : Block} {feeds fetches : List String} {ops : List Operation}
    (h : b.ops = (feedsFrom 0 feeds).reverse ++ (ops.filter fun op => !op.isInterface) ++ fetchesOf fetches) :
    b.feeds = (feedsFrom 0 feeds).reverse ∧ b.fetches = fetchesOf fetches := by
  have hfeed : ∀ op ∈ (feedsFrom 0 feeds).reverse, op.type = "feed" := fun op hop => by
    obtain ⟨e, -, rfl⟩ := mem_map.1 (mem_reverse.1 hop)
    rfl
  have hfetch : ∀ op ∈ fetchesOf fetches, op.type = "fetch" := fun op hop => by
    obtain ⟨i, hi, rfl⟩ := mem_mapIdx.1 hop
    rfl
  rw [Block.feeds, Block.fetches, h]
  simp only [filter_append, filter_inner_eq_nil ops "feed" rfl,
    filter_inner_eq_nil ops "fetch" rfl, append_nil]
  refine ⟨?_, ?_⟩
  · rw [filter_eq_self.2 fun op hop => beq_iff_eq.2 (hfeed op hop),
      filter_eq_nil_iff.2 fun op hop heq => ?_, append_nil]
    rw [hfetch op hop] at heq
    exact absurd heq (by decide)
  · rw [filter_eq_nil_iff.2 fun op hop heq => ?_,
      filter_eq_self.2 fun op hop => beq_iff_eq.2 (hfetch op hop), nil_append]
    rw [hfeed op hop] at heq
    exact absurd heq (by decide)

theorem feedsFrom_zero (names : List String) :
    feedsFrom 0 names = names.mapIdx fun i x => feedOp "feed" i x :=
  mapIdx_eq_zipIdx_map.symm

theorem firstOf_feedsFrom (names : List String) :
    ((feedsFrom 0 names).reverse.map fun op => firstOf op.outputs "Out") = names.reverse.map .ok := by
  have hnames : names.reverse = names.zipIdx.reverse.map Prod.fst := by
    rw [map_reverse, zipIdx_map_fst]
  rw [feedsFrom, ← map_reverse, map_map, hnames, map_map]
  rfl

theorem firstOf_fetchesOf (names : List String) :
    ((fetchesOf names).map fun op => firstOf op.inputs "X") = names.map .ok := by
  have hnames : names = names.zipIdx.map Prod.fst := (zipIdx_map_fst 0 names).symm
  rw [fetchesOf, mapIdx_eq_zipIdx_map, map_map]
  conv_rhs => rw [hnames, map_map]
  rfl

/-- What is read back from the interface of a program that was rebuilt. -/
theorem interfaceOf_rebuilt {b : Block} {feeds fetches : List String} {ops : List Operation}
    {ins outs : List Value}
    (hops : b.ops = (feedsFrom 0 feeds).reverse ++ (ops.filter fun op => !op.isInterface) ++ fetchesOf fetches)
    (h : interfaceOf b b.ops = .ok (ins, outs)) :
    ins = feeds.reverse.map .str ∧ outs = fetches.map (.object .variable) := by
  obtain ⟨feeds', fetches', rfl, rfl, hfeeds, hfetches⟩ := interfaceOf_ok h
  obtain ⟨hfeed, hfetch⟩ := feeds_rebuilt hops
  rw [show (b.ops.filter fun op => op.type == "feed") = _ from hfeed, firstOf_feedsFrom] at hfeeds
  rw [show (b.ops.filter fun op => op.type == "fetch") = _ from hfetch, firstOf_fetchesOf] at hfetches
  have hinj : Function.Injective (Except.ok : String → Except Slip String) := fun _ _ => Except.ok.inj
  rw [hinj.list_map hfeeds, hinj.list_map hfetches]
  exact ⟨rfl, rfl⟩

/-- **Names of an interface, written and read back**: inputs come back in reverse, so they are those
that were given if and only if they read the same both ways. -/
theorem inputs_convertLoaded_rebuild_iff (p : Program) (feeds fetches : List String)
    (hfeeds : ∀ x ∈ feeds, (p.global.var? x).isSome = true) :
    ∃ q, (ProgramEdit.rebuild feeds fetches).run p = .ok q ∧
      q.global.feeds = (feeds.mapIdx fun i x => feedOp "feed" i x).reverse ∧
      q.global.fetches = (fetches.mapIdx fun i x => fetchOp "fetch" i x) ∧
      ∀ (composites : List (Value × Composite)) (s : Session) (shapes : List (Value × Value)) (opset : Int)
        (fails : Bool) (product : Product) (d : Draft),
        EStateM.run (convertLoaded (Registry.withComposites composites) q shapes opset fails)
            (s.draft opset) = .ok product d →
          let inputs := product.theModel.inputs.map ValueInfo.name
          inputs = feeds.reverse.map .str ∧
          product.theModel.outputs.map ValueInfo.name = fetches.map .str ∧
          (inputs = feeds.map .str ↔ feeds.reverse = feeds) := by
  obtain ⟨q, hq, hops⟩ := ProgramEdit.run_rebuild fetches hfeeds
  obtain ⟨hfeed, hfetch⟩ := feeds_rebuilt hops
  refine ⟨q, hq, by rw [hfeed, feedsFrom_zero], hfetch, ?_⟩
  intro composites s shapes opset fails product d h inputs
  obtain ⟨q', hshaped, h₁⟩ := computed_ok h
  obtain ⟨⟨ins, outs⟩, d₁, hinterface, hconvert⟩ := bind_ok h₁
  obtain ⟨hread, rfl⟩ := slip_ok hinterface
  obtain ⟨rfl, rfl⟩ := interfaceOf_rebuilt ((Program.ops_reshapeAll hshaped).trans hops) hread
  obtain ⟨hins, houts⟩ := terminals_of_convert rfl rfl hconvert
  have hinputs : inputs = feeds.reverse.map .str := hins
  have hinj : Function.Injective Value.str := fun _ _ => Value.str.inj
  exact ⟨hinputs, houts, by rw [hinputs, (List.map_injective_iff.2 hinj).eq_iff]⟩

def Program.sum : Program :=
  { global :=
      { vars := [{ name := "a", shape := [2] }, { name := "b", shape := [2] }, { name := "y", shape := [2] }]
        ops := [{ type := "elementwise_add", inputs := [("X", ["a"]), ("Y", ["b"])],
                  outputs := [("Out", ["y"])], attrs := [] }] } }

/-- **Two inputs change places.** -/
theorem inputs_convertLoaded_rebuild_iff_sum :
    ∃ q product d, (ProgramEdit.rebuild ["a", "b"] ["y"]).run Program.sum = .ok q ∧
      EStateM.run (convertLoaded (Registry.withComposites []) q [] 11 false)
        (Session.draft { registry := Registry.standard } 11) = .ok product d ∧
      product.theModel.inputs.map ValueInfo.name = [.str "b", .str "a"] ∧
      product.theModel.inputs.map ValueInfo.name ≠ [.str "a", .str "b"] := by
  obtain ⟨q, hq, -, -, hmodels⟩ := inputs_convertLoaded_rebuild_iff Program.sum ["a", "b"] ["y"] (by decide)
  have hruns : (match (ProgramEdit.rebuild ["a", "b"] ["y"]).run Program.sum with
      | .ok q => (EStateM.run' (convertLoaded (Registry.withComposites []) q [] 11 false)
          (Session.draft { registry := Registry.standard } 11)).isSome
      | .error _ => false) = true := by decide +kernel
  rw [hq] at hruns
  dsimp only at hruns
  unfold EStateM.run' at hruns
  split at hruns
  · rename_i product d hrun
    obtain ⟨hinputs, -, hiff⟩ := hmodels [] { registry := Registry.standard } [] 11 false product d hrun
    exact ⟨q, product, d, hq, hrun, hinputs, fun heq => absurd (hiff.1 heq) (by decide)⟩
  · cases hruns

end ModelExport
