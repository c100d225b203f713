import ModelExport.Proofs.Conversion
import ModelExport.Proofs.Renaming.Chains

/-!
# Proofs/Renaming/FinalWrites — which write an output of the model shows

Outputs of a model are named before any node is renamed, so an output `x` shows the write that `x`
ends with under its own name.  Renaming moves that write to another name exactly when the last node
that writes `x` is the only one that writes it in place (`Displaced`); then the output shows an
earlier write, or none.
-/

namespace ModelExport

open List

/-- **The result that a tensor ends with moves to another name**: the last node that writes the tensor
writes it in place, and none before it does. -/
def Displaced (ns : List Node) (x : String) : Prop :=
  ∃ (i : Nat) (n : Node), ns[i]? = some n ∧ n.InPlace x ∧
    (∀ (j : Nat) (m : Node), i < j → ns[j]? = some m → ¬ m.Writes x) ∧
    ∀ (j : Nat) (m : Node), j < i → ns[j]? = some m → ¬ m.InPlace x

instance (ns : List Node) (x : String) : Decidable (Displaced ns x) :=
  decidable_of_iff (∃ i : Fin ns.length, (ns.get i).InPlace x ∧
      (∀ j : Fin ns.length, i < j → ¬ (ns.get j).Writes x) ∧
        ∀ j : Fin ns.length, j < i → ¬ (ns.get j).InPlace x) <| by
    constructor
    · rintro ⟨i, hin, hlater, hearlier⟩
      refine ⟨i, ns.get i, getElem?_eq_getElem i.2, hin, fun j m hij hm => ?_,
        fun j m hji hm => ?_⟩ <;> obtain ⟨hj, rfl⟩ := List.getElem?_eq_some_iff.1 hm
      · exact hlater ⟨j, hj⟩ hij
      · exact hearlier ⟨j, hj⟩ hji
    · rintro ⟨i, n, hn, hin, hlater, hearlier⟩
      obtain ⟨hi, rfl⟩ := List.getElem?_eq_some_iff.1 hn
      exact ⟨⟨i, hi⟩, hin, fun j hij => hlater j _ hij (getElem?_eq_getElem j.2),
        fun j hji => hearlier j _ hji (getElem?_eq_getElem j.2)⟩

theorem lastWrite_access_eq_none (ns : List Node) (x : String) :
    lastWrite x (ns.map Node.access) = none ↔
      ∀ (j : Nat) (m : Node), ns[j]? = some m → ¬ m.Writes x := by
  rw [lastWrite_eq_none]
  refine ⟨fun h j m hm => h m.access (mem_map_of_mem (mem_of_getElem? hm)), fun h a ha => ?_⟩
  obtain ⟨m, hm, rfl⟩ := mem_map.1 ha
  obtain ⟨j, hj⟩ := mem_iff_getElem?.1 hm
  exact h j m hj

theorem lastWrite_access_eq_some (ns : List Node) (x : String) (i p : Nat) :
    lastWrite x (ns.map Node.access) = some (i, p) ↔
      ∃ n, ns[i]? = some n ∧ lastPlace x n.outputs = some p ∧
        ∀ (j : Nat) (m : Node), i < j → ns[j]? = some m → ¬ m.Writes x := by
  rw [lastWrite_eq_some]
  simp only [UnwrittenBehind, getElem?_map, Option.map_eq_some_iff]
  constructor
  · rintro ⟨_, ⟨n, hn, rfl⟩, hp, hlater⟩
    exact ⟨n, hn, hp, fun j m hj hm => hlater j m.access hj ⟨m, hm, rfl⟩⟩
  · rintro ⟨n, hn, hp, hlater⟩
    exact ⟨n.access, ⟨n, hn, rfl⟩, hp, fun j _ hj ⟨m, hm, he⟩ => he ▸ hlater j m hj hm⟩

/-- Where writing over comes last, whatever is written in place is displaced. -/
theorem OverwritesLast.displaced {ns : List Node} (h : OverwritesLast ns) {i : Nat} {n : Node}
    {x : String} (hn : ns[i]? = some n) (hin : n.InPlace x) : Displaced ns x := by
  have hlast : ∀ {i j : Nat} {n m : Node}, i < j → ns[i]? = some n → ns[j]? = some m →
      n.InPlace x → ¬ m.Writes x := by
    intro i j n m hij hn hm
    obtain ⟨hi, rfl⟩ := List.getElem?_eq_some_iff.1 hn
    obtain ⟨hj, rfl⟩ := List.getElem?_eq_some_iff.1 hm
    exact pairwise_iff_getElem.1 h.last i j hi hj hij x
  exact ⟨i, n, hn, hin, fun j m hij hm => hlast hij hn hm hin,
    fun j m hji hm hin' => hlast hji hm hn hin' hin.2⟩

/-- Where no new name is `x`, the final write to `x` keeps its place under relabelling. -/
theorem lastPlace_relabel {new : String → Option String} {x : String} : ∀ {outs : List Value},
    (∀ y, .str y ∈ outs → new y ≠ some x) → (.str x ∈ outs → new x = none) →
      lastPlace x (relabel new outs) = lastPlace x outs
  | [], _, _ => rfl
  | v :: rest, hnew, hx => by
      have ih := lastPlace_relabel (fun y hy => hnew y (mem_cons_of_mem _ hy))
        fun h => hx (mem_cons_of_mem _ h)
      by_cases hv : ∃ y, v = .str y
      · obtain ⟨y, rfl⟩ := hv
        have hlabel : (if .str y ∈ rest then y else (new y).getD y) = x ↔ y = x := by
          split
          · rfl
          · cases hy : new y with
            | none => rfl
            | some z =>
              refine iff_of_false (fun hz : z = x => hnew y mem_cons_self (hz ▸ hy)) ?_
              rintro rfl
              simp [hx mem_cons_self] at hy
        simp only [relabel, lastPlace, ih, same_str_str, beq_iff_eq, hlabel]
      · have hsame : relabel new (v :: rest) = v :: relabel new rest := by
          cases v <;> first | rfl | exact absurd ⟨_, rfl⟩ hv
        rw [hsame, lastPlace, lastPlace, ih]

namespace Renamer

variable {s : Renamer} {ns : List Node} {x : String} (hok : (s.pass ns).2.failed = false)
  (hs : s.names = []) (hx : ∀ (i : Nat) (z : String), (s.upTo ns i).name? z ≠ some x)

include hok hs hx

/-- Before a tensor is written in place it has no new name, and afterwards it has one. -/
theorem name?_upTo_eq_none_iff (i : Nat) : (s.upTo ns i).name? x = none ↔
    ∀ (j : Nat) (m : Node), j < i → ns[j]? = some m → ¬ m.InPlace x := by
  have hkeyed := keyed_upTo hok fun e he => absurd he (by simp [hs])
  refine ⟨fun hnone j m hj hm hin => ?_, fun hno => ?_⟩
  · have hsome := isSome_name?_after hok hm hin hj
    rw [hnone] at hsome
    cases hsome
  · induction i with
    | zero => simp [upTo, pass, name?, hs]
    | succ i ih =>
      rcases name?_upTo_succ hok i x with he | ⟨n, hn, hrep, -⟩
      · rw [he]
        exact ih fun j m hj => hno j m (Nat.lt_succ_of_lt hj)
      · exact absurd ((repeats_iff (hkeyed i) (hx i)).1 hrep).1 (hno i n (Nat.lt_succ_self i) hn)

/-- **A node is renamed at `x` when it is the first to write `x` in place.** -/
theorem repeats_upTo_iff (i : Nat) (n : Node) : (s.upTo ns i).Repeats n x ↔ n.InPlace x ∧
    ∀ (j : Nat) (m : Node), j < i → ns[j]? = some m → ¬ m.InPlace x := by
  rw [repeats_iff (keyed_upTo hok (fun e he => absurd he (by simp [hs])) i) (hx i),
    name?_upTo_eq_none_iff hok hs hx]

omit hs in
theorem lastPlace_outputs_pass {i : Nat} {n n' : Node} (hn : ns[i]? = some n)
    (hn' : (s.pass ns).1[i]? = some n') (hrep : ¬ (s.upTo ns i).Repeats n x) :
    lastPlace x n'.outputs = lastPlace x n.outputs := by
  have hnode := failed_at hok hn
  rw [getElem?_pass, hn] at hn'
  obtain rfl := Option.some.inj hn'
  rw [outputs_node hnode]
  refine lastPlace_relabel (fun y hy hnew => ?_) fun hout => if_neg fun hin => hrep ⟨hin, hout⟩
  split at hnew
  · rename_i hin
    refine hx (i + 1) y ?_
    rw [upTo_succ hn, name?_node hnode, if_pos ⟨hin, hy⟩, hnew]
  · cases hnew

omit hs in
theorem writes_of_writes_pass {i : Nat} {n n' : Node} (hn : ns[i]? = some n)
    (hn' : (s.pass ns).1[i]? = some n') (h : n'.Writes x) : n.Writes x := by
  by_contra hno
  have hlast := lastPlace_outputs_pass hok hx hn hn' fun hrep => hno hrep.2
  rw [(lastPlace_eq_none x n.outputs).2 hno, lastPlace_eq_none] at hlast
  exact hlast h

omit hs in
theorem unwritten_pass {i : Nat}
    (h : ∀ (j : Nat) (m : Node), i ≤ j → ns[j]? = some m → ¬ m.Writes x) :
    ∀ (j : Nat) (m : Node), i ≤ j → (s.pass ns).1[j]? = some m → ¬ m.Writes x := by
  intro j m' hj hm' hwrites
  obtain ⟨m, hm, -⟩ := Option.map_eq_some_iff.1 ((getElem?_pass s ns j).symm.trans hm')
  exact h j m hj hm (writes_of_writes_pass hok hx hm hm' hwrites)

omit hs in
theorem lastWrite_pass_eq_none (h : lastWrite x (ns.map Node.access) = none) :
    lastWrite x ((s.pass ns).1.map Node.access) = none := by
  rw [lastWrite_access_eq_none] at h ⊢
  exact fun j m hm => unwritten_pass hok hx (i := 0) (fun j m _ => h j m) j m (Nat.zero_le j) hm

theorem lastWrite_pass_of_displaced (h : Displaced ns x) :
    lastWrite x ((s.pass ns).1.map Node.access) ≠ lastWrite x (ns.map Node.access) := by
  obtain ⟨i, n, hn, hin, hlater, hearlier⟩ := h
  obtain ⟨p, hp⟩ := Option.ne_none_iff_exists'.1 fun h => (lastPlace_eq_none x n.outputs).1 h hin.2
  intro heq
  rw [(lastWrite_access_eq_some ns x i p).2 ⟨n, hn, hp, hlater⟩, lastWrite_access_eq_some] at heq
  obtain ⟨n', hn', hp', -⟩ := heq
  have hout := getElem?_outputs_pass hok hn hn' hp
  rw [if_pos ((repeats_upTo_iff hok hs hx i n).2 ⟨hin, hearlier⟩)] at hout
  have hname := Option.some.inj (hout.symm.trans ((lastPlace_eq_some x _ p).1 hp').1)
  exact successor_ne x _ (Value.str.inj hname)

/-- **The final write to `x` stays where it was, unless it is displaced.** -/
theorem lastWrite_pass_iff : lastWrite x ((s.pass ns).1.map Node.access) =
    lastWrite x (ns.map Node.access) ↔ ¬ Displaced ns x := by
  refine ⟨fun heq h => lastWrite_pass_of_displaced hok hs hx h heq, fun hdisplaced => ?_⟩
  cases hlast : lastWrite x (ns.map Node.access) with
  | none => exact lastWrite_pass_eq_none hok hx hlast
  | some e =>
    obtain ⟨i, p⟩ := e
    rw [lastWrite_access_eq_some] at hlast ⊢
    obtain ⟨n, hn, hp, hlater⟩ := hlast
    have hrep : ¬ (s.upTo ns i).Repeats n x := fun hrep => by
      obtain ⟨hin, hearlier⟩ := (repeats_upTo_iff hok hs hx i n).1 hrep
      exact hdisplaced ⟨i, n, hn, hin, hlater, hearlier⟩
    obtain ⟨n', hn'⟩ : ∃ n', (s.pass ns).1[i]? = some n' := by
      rw [getElem?_pass, hn]
      exact ⟨_, rfl⟩
    exact ⟨n', hn', (lastPlace_outputs_pass hok hx hn hn' hrep).trans hp,
      unwritten_pass hok hx (i := i + 1) hlater⟩

/-! ## Values -/

/-- **Where writing over comes last, a tensor whose final write is not displaced ends with the same
value.** -/
theorem evaluate_pass {τ : Type*} (hlast : OverwritesLast ns) (hnamed : Named ns)
    (h : ¬ Displaced ns x) (f : Kernel τ) (k : Nat) (σ : Store τ) :
    (Access.evaluate f k σ ((s.pass ns).1.map Node.access)).2 (.str x) =
      (Access.evaluate f k σ (ns.map Node.access)).2 (.str x) := by
  have hname : (s.pass ns).2.name? x = none := by
    rw [← upTo_length, name?_upTo_eq_none_iff hok hs hx]
    exact fun j m _ hm hin => h (hlast.displaced hm hin)
  by_cases htouch : ∃ n ∈ ns, n.Touches (.str x)
  · obtain ⟨n, hn, hv⟩ := htouch
    obtain ⟨-, hfollows⟩ := (follows_of_names_nil hs σ).pass hlast hnamed f k
      (fits_of_names_nil hs) (fun _ h => h) hlast.last hok
    rw [hfollows n hn _ hv, current_str, hname, Option.getD_none]
  · have hno : ∀ (j : Nat) (m : Node), 0 ≤ j → ns[j]? = some m → ¬ m.Writes x :=
      fun j m _ hm hw => htouch ⟨m, mem_of_getElem? hm, Or.inr hw⟩
    have hunwritten : ∀ {ms : List Node},
        (∀ (j : Nat) (m : Node), 0 ≤ j → ms[j]? = some m → ¬ m.Writes x) →
          (Access.evaluate f k σ (ms.map Node.access)).2 (.str x) = σ (.str x) := fun hms => by
      refine Access.evaluate_of_unwritten f _ k σ fun a ha => ?_
      obtain ⟨m, hm, rfl⟩ := mem_map.1 ha
      obtain ⟨j, hj⟩ := mem_iff_getElem?.1 hm
      exact hms j m (Nat.zero_le j) hj
    rw [hunwritten hno, hunwritten (unwritten_pass hok hx hno)]

end Renamer

/-! ## Conversions -/

/-- **Which write an output of an exported model shows.**  A conversion that succeeds has mapped the
graph of the program to a draft, whose model `before` has every tensor under its own name; the
exported model `after` has the outputs of the graph, by name.  Whatever name `x` renaming has not
handed out: the final write to `x` is the same in both exactly when it is not displaced.  Where it is
displaced, the values differ for some nodes; where it is not, and writing over comes last, `x` ends
with the same value whatever the nodes compute. -/
theorem output_shows_final_write_iff (s : Session) (c : Conversion) {product : Product} {d : Draft}
    (h : EStateM.run (Emit.convert Registry.standard c) (s.draft c.options.opset) = .ok product d) :
    ∃ g d₁ before, c.graph = .ok g ∧
      EStateM.run (Emit.build Registry.standard c.options.exportType g) (s.draft c.options.opset) =
        .ok () d₁ ∧
      EStateM.run Emit.model d₁ = .ok before d₁ ∧
      (product.theModel.outputs.map ValueInfo.name = g.outputs.map fun t => .str t.name) ∧
      let ns := d₁.nodes.map Prod.snd
      let after := product.theModel
      ∀ x, ¬ d₁.HandsOut d x →
        (lastWrite x after.accesses = lastWrite x before.accesses ↔ ¬ Displaced ns x) ∧
        (Displaced ns x → ∃ (f : Kernel (Option (Nat × Nat))) (σ : Store (Option (Nat × Nat))),
          (Access.evaluate f 0 σ after.accesses).2 (.str x) ≠
            (Access.evaluate f 0 σ before.accesses).2 (.str x)) ∧
        (OverwritesLast ns → ¬ Displaced ns x → ∀ {τ : Type} (f : Kernel τ) (σ : Store τ),
          (Access.evaluate f 0 σ after.accesses).2 (.str x) =
            (Access.evaluate f 0 σ before.accesses).2 (.str x)) := by
  obtain ⟨g, d₁, he⟩ := s.exports h
  obtain ⟨before, hmodel⟩ : ∃ m, EStateM.run Emit.model d₁ = .ok m d₁ := ⟨_, rfl⟩
  refine ⟨g, d₁, before, he.graph, he.build, hmodel, by rw [he.outputs, he.built.outputs]; rfl, ?_⟩
  intro ns after x hx
  have hnew : ∀ (i : Nat) (z : String), (d₁.renamer.upTo ns i).name? z ≠ some x := fun i z hz => by
    obtain ⟨-, k, hk, hlow, hhigh⟩ := Renamer.origin_upTo he.treated rfl i hz
    refine hx ⟨z, k, hk, hlow, ?_⟩
    rw [Draft.renameCount, he.renames]
    exact hhigh
  have hbefore := accesses_model hmodel fun e hmem =>
    ⟨he.built.tidy.kept.recordable e hmem, he.built.tidy.recorded e hmem⟩
  have hmap : (d₁.nodes.map fun e => e.2.access) = ns.map Node.access := by
    rw [List.map_map]
    rfl
  rw [hmap] at hbefore
  have hiff : lastWrite x after.accesses = lastWrite x before.accesses ↔ ¬ Displaced ns x := by
    rw [he.accesses, hbefore, lastWrite_append_inj]
    · exact Renamer.lastWrite_pass_iff he.treated rfl hnew
    · exact Renamer.lastWrite_pass_eq_none he.treated hnew
  refine ⟨hiff, fun hdisplaced => ⟨Kernel.trace, fun _ => none, fun heq => ?_⟩,
    fun hlast hdisplaced τ f σ => ?_⟩
  · rw [Access.evaluate_trace_empty, Access.evaluate_trace_empty] at heq
    exact hiff.1 heq hdisplaced
  · rw [he.accesses, hbefore, Access.evaluate_append, Access.evaluate_append]
    exact Renamer.evaluate_pass he.treated rfl hnew hlast he.named hdisplaced f _ _

def blank : Draft := Session.draft { registry := Registry.standard } ({} : ExportOptions).opset

def farthest : Conversion :=
  { program := .program
      { global :=
          { vars := [{ name := "a", shape := [2] }, { name := "b", shape := [2] },
              { name := "out", shape := [1] }]
            ops := [{ type := "dist", inputs := [("X", ["a"]), ("Y", ["b"])],
                      outputs := [("Out", ["out"])], attrs := [("p", .float (1 / 0))] }] } }
    feeds := .strs ["a", "b"]
    fetches := .list [.object .variable "out"] }

theorem displaced_farthest {g : SourceGraph} {d₁ : Draft} (hg : farthest.graph = .ok g)
    (hd₁ : EStateM.run (Emit.build Registry.standard farthest.options.exportType g) blank =
      .ok () d₁) : Displaced (d₁.nodes.map Prod.snd) "out" := by
  have hcheck : (match farthest.graph with
      | .ok g => match EStateM.run (Emit.build Registry.standard farthest.options.exportType g) blank with
        | .ok _ d₁ => decide (Displaced (d₁.nodes.map Prod.snd) "out")
        | .error _ _ => false
      | .error _ => false) = true := by
    decide +kernel
  rw [hg] at hcheck
  dsimp only at hcheck
  rw [hd₁] at hcheck
  exact of_decide_eq_true hcheck

/-- **The greatest difference is lost**: it is written to `out`, and then `out` is written over, so
the output shows the first of the two writes. -/
theorem output_shows_final_write_iff_farthest :
    ∃ product d g d₁ before, farthest.graph = .ok g ∧
      EStateM.run (Emit.convert Registry.standard farthest) blank = .ok product d ∧
      EStateM.run (Emit.build Registry.standard farthest.options.exportType g) blank = .ok () d₁ ∧
      EStateM.run Emit.model d₁ = .ok before d₁ ∧
      (product.theModel.outputs.map ValueInfo.name = g.outputs.map fun t => .str t.name) ∧
      lastWrite "out" product.theModel.accesses ≠ lastWrite "out" before.accesses ∧
      ∃ (f : Kernel (Option (Nat × Nat))) (σ : Store (Option (Nat × Nat))),
        (Access.evaluate f 0 σ product.theModel.accesses).2 (.str "out") ≠
          (Access.evaluate f 0 σ before.accesses).2 (.str "out") := by
  have hconverts : (EStateM.run (Emit.convert Registry.standard farthest) blank matches .ok _ _) =
      true := by decide +kernel
  cases hrun : EStateM.run (Emit.convert Registry.standard farthest) blank with
  | error f d => simp [hrun] at hconverts
  | ok product d =>
    obtain ⟨g, d₁, before, hg, hbuild, hmodel, houts, hshows⟩ :=
      output_shows_final_write_iff { registry := Registry.standard } farthest hrun
    have hdisplaced := displaced_farthest hg hbuild
    obtain ⟨hiff, hvalues, -⟩ := hshows "out" fun ⟨x, k, hk, _⟩ =>
      successor_ne_of_dotless x k (by decide) hk.symm
    exact ⟨product, d, g, d₁, before, hg, rfl, hbuild, hmodel, houts,
      fun he => hiff.1 he hdisplaced, hvalues hdisplaced⟩

end ModelExport
