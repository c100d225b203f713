import Mathlib.Data.Fintype.Card
import Mathlib.Logic.Relation
import ModelExport.Proofs.SourceGraph

/-!
# Proofs/Ordering — the order puts every node before the nodes it feeds

    placed : everything it feeds is placed   │ pending : everything it feeds is placed │ waiting
    ─────────────────────────────────────────┴─────────────────────────────────────────┴────────

`placeAll` places one pending node after another; what holds of the three parts (`Placing`) holds
after each step (`Placing.step`) and so at the end, when nothing is pending any more.  A node is then
placed if and only if every chain that starts at it ends, and among finitely many nodes that means
that it leads to no cycle (`acc_iff_reaches_no_cycle`).
-/

namespace ModelExport

open List Relation

variable {ws : List Wire} {x y : String}

/-! ## Chains among finitely many nodes -/

section Chains

variable {α : Type*} {r : α → α → Prop}

theorem not_transGen_self_of_acc {x : α} (h : Acc (Function.swap r) x) : ¬ TransGen r x x := by
  have hacc := h.transGen
  clear h
  induction hacc with
  | intro x _ ih => exact fun hx => ih x (transGen_swap.2 hx) hx

theorem acc_of_reflTransGen {x y : α} (h : Acc (Function.swap r) x) (hxy : ReflTransGen r x y) :
    Acc (Function.swap r) y := by
  induction hxy with
  | refl => exact h
  | tail _ hyz ih => exact ih.inv hyz

/-- **Among finitely many elements, all chains from one end if and only if it reaches no cycle.** -/
theorem acc_iff_reaches_no_cycle {xs : List α} (hfin : ∀ x y, r x y → y ∈ xs) {x : α} (hx : x ∈ xs) :
    Acc (Function.swap r) x ↔ ¬ ∃ y, ReflTransGen r x y ∧ TransGen r y y := by
  refine ⟨fun h ⟨y, hxy, hy⟩ => not_transGen_self_of_acc (acc_of_reflTransGen h hxy) hy, fun h => ?_⟩
  -- what is reached from `x` is a finite strict order, with later elements below
  let reached (y : {y // y ∈ xs}) : Prop := ReflTransGen r x y
  let below (a b : {y // y ∈ xs}) : Prop := reached b ∧ TransGen r b a
  have htrans : IsTrans _ below := ⟨fun _ _ _ hab hbc => ⟨hbc.1, hbc.2.trans hab.2⟩⟩
  have hirrefl : Std.Irrefl below := ⟨fun a ha => h ⟨a, ha⟩⟩
  have hfinite : Finite {y // y ∈ xs} := (xs.finite_toSet).to_subtype
  have hwf : WellFounded below := Finite.wellFounded_of_trans_of_irrefl below
  have hacc : ∀ y : {y // y ∈ xs}, reached y → Acc (Function.swap r) y.1 := by
    intro y
    induction y using hwf.induction with
    | _ y ih =>
      intro hy
      refine Acc.intro _ fun z hyz => ?_
      exact ih ⟨z, hfin _ _ hyz⟩ ⟨hy, .single hyz⟩ (hy.tail hyz)
  exact hacc ⟨x, hx⟩ .refl

end Chains

/-! ## Which node feeds which -/

/-- **One node feeds another**: a different node reads what it writes. -/
def Feeds (ws : List Wire) (x y : String) : Prop :=
  ∃ p ∈ ws, ∃ c ∈ ws, p.name = x ∧ c.name = y ∧ x ≠ y ∧
    ∃ v ∈ c.reads, ∃ u ∈ p.writes, v.same u = true

theorem Wire.provides_iff {p : Wire} {x : Value} : p.provides x = true ↔ ∃ u ∈ p.writes, x.same u = true := by
  simp [provides]

theorem mem_consumers {p : Wire} :
    y ∈ consumers ws p ↔ ∃ c ∈ ws, c.name = y ∧ p.name ≠ y ∧
      ∃ v ∈ c.reads, ∃ u ∈ p.writes, v.same u = true := by
  constructor
  · intro hy
    obtain ⟨c, hc, rfl⟩ := mem_map.1 hy
    obtain ⟨hmem, hfeeds⟩ := mem_filter.1 hc
    obtain ⟨hne, hreads⟩ := (Bool.and_eq_true _ _).mp hfeeds
    obtain ⟨v, hv, hprovides⟩ := any_eq_true.1 hreads
    exact ⟨c, hmem, rfl, bne_iff_ne.1 hne, v, hv, Wire.provides_iff.1 hprovides⟩
  · rintro ⟨c, hmem, rfl, hne, v, hv, hu⟩
    refine mem_map.2 ⟨c, mem_filter.2 ⟨hmem, ?_⟩, rfl⟩
    exact (Bool.and_eq_true _ _).mpr
      ⟨bne_iff_ne.2 hne, any_eq_true.2 ⟨v, hv, Wire.provides_iff.2 hu⟩⟩

theorem feeds_iff_mem_consumers : Feeds ws x y ↔ ∃ p ∈ ws, p.name = x ∧ y ∈ consumers ws p := by
  simp only [Feeds, mem_consumers]
  constructor
  · rintro ⟨p, hp, c, hc, rfl, hy, hne, hreads⟩
    exact ⟨p, hp, rfl, c, hc, hy, hne, hreads⟩
  · rintro ⟨p, hp, rfl, c, hc, hy, hne, hreads⟩
    exact ⟨p, hp, c, hc, rfl, hy, hne, hreads⟩

theorem Feeds.mem_left (h : Feeds ws x y) : x ∈ ws.map Wire.name := by
  obtain ⟨p, hp, -, -, rfl, -⟩ := h
  exact mem_map_of_mem hp

theorem Feeds.mem_right (h : Feeds ws x y) : y ∈ ws.map Wire.name := by
  obtain ⟨-, -, c, hc, -, rfl, -⟩ := h
  exact mem_map_of_mem hc

/-! ## The table of consumers -/

theorem mem_firstOccurrences (names : List String) : x ∈ firstOccurrences names ↔ x ∈ names :=
  mem_distinct names

theorem nodup_firstOccurrences (names : List String) : (firstOccurrences names).Nodup := by
  refine List.foldlRecOn names _ nodup_nil fun seen hseen n _ => ?_
  split
  · exact hseen
  · rename_i hn
    have hnew : n ∉ seen := fun h => hn (contains_iff_mem.2 h)
    exact nodup_append.2 ⟨hseen, nodup_singleton n, fun x hx y hy hxy =>
      hnew (mem_singleton.1 hy ▸ hxy ▸ hx)⟩

/-- **The table has the nodes that feed some other.** -/
theorem mem_keys_adjacency : x ∈ Assoc.keys (adjacency ws) ↔ ∃ y, Feeds ws x y := by
  have hkeys : Assoc.keys (adjacency ws) =
      firstOccurrences ((ws.flatMap (providers ws)).map Wire.name) := by
    rw [Assoc.keys, adjacency, List.map_map]
    exact map_id _
  rw [hkeys, mem_firstOccurrences, mem_map]
  constructor
  · rintro ⟨p, hp, rfl⟩
    obtain ⟨c, hc, hp⟩ := mem_flatMap.1 hp
    obtain ⟨v, hv, hp⟩ := mem_flatMap.1 hp
    obtain ⟨hmem, hprovides⟩ := mem_filter.1 hp
    obtain ⟨hne, hprovides⟩ := (Bool.and_eq_true _ _).mp hprovides
    exact ⟨c.name, p, hmem, c, hc, rfl, rfl, bne_iff_ne.1 hne, v, hv, Wire.provides_iff.1 hprovides⟩
  · rintro ⟨y, p, hp, c, hc, rfl, rfl, hne, v, hv, hu⟩
    refine ⟨p, mem_flatMap.2 ⟨c, hc, mem_flatMap.2 ⟨v, hv, mem_filter.2 ⟨hp, ?_⟩⟩⟩, rfl⟩
    exact (Bool.and_eq_true _ _).mpr ⟨bne_iff_ne.2 hne, Wire.provides_iff.2 hu⟩

theorem nodup_keys_adjacency (ws : List Wire) : (Assoc.keys (adjacency ws)).Nodup := by
  rw [Assoc.keys, adjacency, List.map_map]
  exact (map_id _).symm ▸ nodup_firstOccurrences _

/-- **A node stands in the table with the nodes it feeds.** -/
theorem mem_of_mem_adjacency {e : String × List String} (he : e ∈ adjacency ws) (y : String) :
    y ∈ e.2 ↔ Feeds ws e.1 y := by
  obtain ⟨x, -, rfl⟩ := mem_map.1 he
  rw [feeds_iff_mem_consumers, mem_flatMap]
  constructor
  · rintro ⟨p, hp, hy⟩
    obtain ⟨hmem, hname⟩ := mem_filter.1 hp
    exact ⟨p, hmem, beq_iff_eq.1 hname, hy⟩
  · rintro ⟨p, hmem, hname, hy⟩
    exact ⟨p, mem_filter.2 ⟨hmem, beq_iff_eq.2 hname⟩, hy⟩

/-! ## Placing -/

namespace Waiting

variable {w : Waiting} {c x : String}

theorem mem_strike {e : String × List String} (he : e ∈ w.strike c) :
    ∃ f ∈ w, f.1 = e.1 ∧ ∀ y, y ∈ e.2 ↔ y ∈ f.2 ∧ y ≠ c := by
  obtain ⟨f, hf, rfl⟩ := mem_map.1 he
  exact ⟨f, hf, rfl, fun y => mem_filter.trans (and_congr_right fun _ => bne_iff_ne)⟩

theorem keys_strike (w : Waiting) (c : String) : Assoc.keys (w.strike c) = Assoc.keys w := by
  rw [Assoc.keys, strike, List.map_map]
  rfl

theorem mem_freedBy : x ∈ w.freedBy c ↔ ∃ e ∈ w, e.1 = x ∧ (∃ y, y ∈ e.2) ∧ ∀ y ∈ e.2, y = c := by
  have hfreed : ∀ e : String × List String,
      (!e.2.isEmpty && (e.2.filter (· != c)).isEmpty) = true ↔ (∃ y, y ∈ e.2) ∧ ∀ y ∈ e.2, y = c := by
    intro e
    rw [Bool.and_eq_true, Bool.not_eq_true', isEmpty_eq_false_iff_exists_mem, List.isEmpty_iff,
      filter_eq_nil_iff]
    simp
  simp only [freedBy, mem_map, mem_filter, hfreed]
  constructor
  · rintro ⟨e, ⟨he, hwaits⟩, rfl⟩
    exact ⟨e, he, rfl, hwaits⟩
  · rintro ⟨e, he, rfl, hwaits⟩
    exact ⟨e, ⟨he, hwaits⟩, rfl⟩

theorem nodup_freedBy (h : (Assoc.keys w).Nodup) : (w.freedBy c).Nodup :=
  h.sublist (filter_sublist.map Prod.fst)

end Waiting

/-- **How far placing has come**: a node is placed or pending if and only if everything it feeds is
placed, and the others wait for what they feed and is not placed. -/
structure Placing (ws : List Wire) (placed pending : List String) (w : Waiting) : Prop where
  keys : (Assoc.keys w).Nodup
  complete : ∀ x y, Feeds ws x y → x ∈ Assoc.keys w
  waits : ∀ e ∈ w, ∀ y, y ∈ e.2 ↔ Feeds ws e.1 y ∧ y ∉ placed
  nodup : (placed ++ pending).Nodup
  mem_iff : ∀ x, x ∈ placed ++ pending ↔ x ∈ ws.map Wire.name ∧ ∀ y, Feeds ws x y → y ∈ placed
  ordered : ∀ x y, Feeds ws x y → x ∈ placed → [y, x].Sublist placed
  ends : ∀ x ∈ placed, Acc (Function.swap (Feeds ws)) x

namespace Placing

variable {ws : List Wire} {placed pending : List String} {w : Waiting} {c : String}

/-- **At first nothing is placed**, and the nodes that feed no other are pending. -/
theorem start (hws : (ws.map Wire.name).Nodup) :
    Placing ws [] ((ws.map Wire.name).filter fun n => !Assoc.contains (adjacency ws) n) (adjacency ws) where
  keys := nodup_keys_adjacency ws
  complete _ y hxy := mem_keys_adjacency.2 ⟨y, hxy⟩
  waits e he y := by simpa using mem_of_mem_adjacency he y
  nodup := hws.filter _
  mem_iff x := by
    rw [nil_append, mem_filter, Bool.not_eq_true', ← Bool.not_eq_true,
      Assoc.contains_iff_mem_keys, mem_keys_adjacency]
    simp
  ordered _ _ _ hx := absurd hx not_mem_nil
  ends _ hx := absurd hx not_mem_nil

/-- What is freed by a node had it as the last one that it waited for. -/
theorem mem_freedBy_iff (h : Placing ws placed (c :: pending) w) (x : String) :
    x ∈ w.freedBy c ↔ (∃ y, Feeds ws x y ∧ y ∉ placed) ∧ ∀ y, Feeds ws x y → y ∈ placed ++ [c] := by
  have hplaced : ∀ y, (y ∉ placed → y = c) ↔ y ∈ placed ++ [c] := fun y => by
    rw [mem_append, mem_singleton, or_iff_not_imp_left]
  rw [Waiting.mem_freedBy]
  constructor
  · rintro ⟨e, he, rfl, ⟨y, hy⟩, honly⟩
    refine ⟨⟨y, (h.waits e he y).1 hy⟩, fun z hz => (hplaced z).1 fun hnot => ?_⟩
    exact honly z ((h.waits e he z).2 ⟨hz, hnot⟩)
  · rintro ⟨⟨y, hy, hnot⟩, hall⟩
    obtain ⟨e, he, rfl⟩ := mem_map.1 (h.complete x y hy)
    refine ⟨e, he, rfl, ⟨y, (h.waits e he y).2 ⟨hy, hnot⟩⟩, fun z hz => ?_⟩
    obtain ⟨hz, hnot⟩ := (h.waits e he z).1 hz
    exact (hplaced z).2 (hall z hz) hnot

/-- **One more node is placed**, and those that waited for it only become pending. -/
theorem step (h : Placing ws placed (c :: pending) w) :
    Placing ws (placed ++ [c]) (pending ++ w.freedBy c) (w.strike c) := by
  have hc : c ∈ placed ++ c :: pending := mem_append_right _ mem_cons_self
  have hfeeds : ∀ y, Feeds ws c y → y ∈ placed := ((h.mem_iff c).1 hc).2
  have hshift : placed ++ [c] ++ (pending ++ w.freedBy c) = (placed ++ c :: pending) ++ w.freedBy c := by
    simp
  refine ⟨?_, ?_, ?_, ?_, ?_, ?_, ?_⟩
  · exact (Waiting.keys_strike w c).symm ▸ h.keys
  · exact fun x y hxy => (Waiting.keys_strike w c).symm ▸ h.complete x y hxy
  · intro e he y
    obtain ⟨f, hf, hname, hmem⟩ := Waiting.mem_strike he
    rw [hmem, h.waits f hf y, hname, mem_append, mem_singleton, not_or, and_assoc]
  · rw [hshift]
    refine nodup_append.2 ⟨h.nodup, Waiting.nodup_freedBy h.keys, ?_⟩
    rintro x hx _ hfreed rfl
    obtain ⟨⟨y, hxy, hy⟩, -⟩ := (h.mem_freedBy_iff x).1 hfreed
    exact hy (((h.mem_iff x).1 hx).2 y hxy)
  · intro x
    rw [hshift, mem_append, h.mem_iff, h.mem_freedBy_iff]
    constructor
    · rintro (⟨hx, hall⟩ | ⟨⟨y, hxy, -⟩, hall⟩)
      · exact ⟨hx, fun y hy => mem_append_left _ (hall y hy)⟩
      · exact ⟨hxy.mem_left, hall⟩
    · rintro ⟨hx, hall⟩
      by_cases hplaced : ∀ y, Feeds ws x y → y ∈ placed
      · exact Or.inl ⟨hx, hplaced⟩
      · push Not at hplaced
        exact Or.inr ⟨hplaced, hall⟩
  · intro x y hxy hx
    rcases mem_append.1 hx with hx | hx
    · exact (h.ordered x y hxy hx).trans (sublist_append_left _ _)
    · obtain rfl := mem_singleton.1 hx
      exact (singleton_sublist.2 (hfeeds y hxy)).append (List.Sublist.refl [x])
  · intro x hx
    rcases mem_append.1 hx with hx | hx
    · exact h.ends x hx
    · obtain rfl := mem_singleton.1 hx
      exact Acc.intro x fun y hxy => h.ends y (hfeeds y hxy)

/-- **Placing goes on until nothing is pending.** -/
theorem placeAll (h : Placing ws placed pending w) :
    ∃ w', Placing ws (placed ++ ModelExport.placeAll pending w) [] w' := by
  fun_induction ModelExport.placeAll pending w generalizing placed with
  | case1 w => exact ⟨w, by rwa [append_nil]⟩
  | case2 w c rest ih =>
    obtain ⟨w', h'⟩ := ih h.step
    exact ⟨w', by rwa [append_assoc, singleton_append] at h'⟩

end Placing

/-! ## The order -/

/-- **An order of a graph's nodes**: without repetitions, the nodes that lead to no cycle, each before
the nodes it feeds; all nodes when there is no cycle. -/
structure Orders (ws : List Wire) (order : List String) : Prop where
  nodup : order.Nodup
  mem_iff : ∀ x, x ∈ order ↔
    x ∈ ws.map Wire.name ∧ ¬ ∃ y, ReflTransGen (Feeds ws) x y ∧ TransGen (Feeds ws) y y
  before : ∀ x y, Feeds ws x y → x ∈ order → [x, y].Sublist order
  complete : (∀ x, ¬ TransGen (Feeds ws) x x) → order.Perm (ws.map Wire.name)

/-- When nothing is pending, the placed nodes are those at which no chain goes on for ever. -/
theorem Placing.mem_iff_acc {placed : List String} {w : Waiting} (h : Placing ws placed [] w) (x : String) :
    x ∈ placed ↔ x ∈ ws.map Wire.name ∧ Acc (Function.swap (Feeds ws)) x := by
  have hmem : ∀ x, x ∈ placed ↔ x ∈ ws.map Wire.name ∧ ∀ y, Feeds ws x y → y ∈ placed := fun x => by
    rw [← h.mem_iff, append_nil]
  constructor
  · exact fun hx => ⟨((hmem x).1 hx).1, h.ends x hx⟩
  · rintro ⟨hx, hacc⟩
    induction hacc with
    | intro x _ ih => exact (hmem x).2 ⟨hx, fun y hxy => ih y hxy hxy.mem_right⟩

/-- **The order of a graph whose nodes have different names.** -/
theorem orders_topologicalOrder (hws : (ws.map Wire.name).Nodup) : Orders ws (topologicalOrder ws) := by
  obtain ⟨w, h⟩ := (Placing.start hws).placeAll
  rw [nil_append] at h
  have hmem : ∀ x, x ∈ topologicalOrder ws ↔
      x ∈ ws.map Wire.name ∧ ¬ ∃ y, ReflTransGen (Feeds ws) x y ∧ TransGen (Feeds ws) y y := by
    intro x
    rw [topologicalOrder, mem_reverse, h.mem_iff_acc]
    exact and_congr_right fun hx => acc_iff_reaches_no_cycle (fun _ _ hxy => hxy.mem_right) hx
  have hnodup : (topologicalOrder ws).Nodup := by
    have := h.nodup
    rw [append_nil] at this
    exact nodup_reverse.2 this
  refine ⟨hnodup, hmem, fun x y hxy hx => ?_, fun hacyclic => ?_⟩
  · exact (h.ordered x y hxy (mem_reverse.1 hx)).reverse
  · refine (perm_ext_iff_of_nodup hnodup hws).2 fun x => (hmem x).trans ?_
    exact and_iff_left fun ⟨y, _, hy⟩ => hacyclic y hy

/-! ## Graphs -/

/-- Nodes that are put in stand under their own names, each once. -/
theorem named_insertAll {m : NodeMap} (hkeys : (Assoc.keys m).Nodup) (hnamed : ∀ e ∈ m, e.1 = e.2.name)
    (ns : List Node) :
    (Assoc.keys (Assoc.insertAll m (NodeMap.ofNodes ns))).Nodup ∧
      ∀ e ∈ Assoc.insertAll m (NodeMap.ofNodes ns), e.1 = e.2.name := by
  induction ns generalizing m with
  | nil => exact ⟨hkeys, hnamed⟩
  | cons n ns ih =>
    refine ih (Assoc.nodup_keys_insert m n.name n hkeys) fun e he => ?_
    rcases Assoc.eq_or_mem_of_mem_insert he with rfl | he
    · rfl
    · exact hnamed e he

/-- **Nodes are ordered by what they feed**: in a graph of nodes that were put in one after another,
and in the graph of a program. -/
theorem topologicalOrder_orders :
    (∀ ns : List Node,
      let ws := (Assoc.insertAll [] (NodeMap.ofNodes ns)).map fun e => e.2.wire
      Orders ws (topologicalOrder ws)) ∧
    ∀ (p : Program) (weights : List (String × Weight)) (inputs outputs : List Terminal),
      let ws := (SourceGraph.build p weights inputs outputs).nodes.map fun e => e.2.wire
      (SourceGraph.build p weights inputs outputs).wires = .ok ws ∧ Orders ws (topologicalOrder ws) := by
  refine ⟨fun ns => orders_topologicalOrder ?_, fun p weights inputs outputs =>
    ⟨SourceGraph.wires_build p weights inputs outputs, orders_topologicalOrder ?_⟩⟩
  · obtain ⟨hkeys, hnamed⟩ :=
      named_insertAll (m := []) List.nodup_nil (fun _ he => absurd he List.not_mem_nil) ns
    rw [List.map_map]
    rwa [Assoc.keys, List.map_congr_left hnamed] at hkeys
  · have hkeyed := SourceGraph.keyed_build p weights inputs outputs
    rw [List.map_map]
    have hnames := hkeyed.nodup
    rwa [Assoc.keys, List.map_congr_left hkeyed.named] at hnames

end ModelExport
