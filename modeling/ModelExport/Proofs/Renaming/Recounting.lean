import ModelExport.Proofs.Renaming.FinalWrites

/-!
# Proofs/Renaming/Recounting — the same nodes renamed from other counts

Names are numbered over all exports, so the same nodes get other names the next time.  As long as no
tensor bears a name that is handed out (`Renamer.Apart`), exactly the tensors that are written in place
get a new name, each a single one (`name?_upTo_cases`); two renamings of the same nodes then differ in
those names and in nothing else (`pass_recounted`).
-/

namespace ModelExport

open List

variable {x : String} {n : Node} {i : Nat}

/-! ## Tensors under other names -/

/-- A value, under another name when it is a text. -/
def Value.mapName (f : String → String) : Value → Value
  | .str x => .str (f x)
  | v => v

theorem map_mapName_eq_self {f : String → String} {vs : List Value} (h : ∀ x, .str x ∈ vs → f x = x) :
    vs.map (Value.mapName f) = vs := by
  conv_rhs => rw [← map_id vs]
  refine map_congr_left fun v hv => ?_
  cases v with
  | str x => exact congrArg Value.str (h x hv)
  | none | bool _ | int _ | float _ | list _ | tuple _ | dict _ | object _ _ => rfl

/-- A node whose tensors have other names. -/
def Node.mapNames (f : String → String) (n : Node) : Node :=
  { n with inputs := n.inputs.map (Value.mapName f), outputs := n.outputs.map (Value.mapName f) }

theorem map_relabel {f : String → String} {new new' : String → Option String} : ∀ {outs : List Value},
    (∀ x, .str x ∈ outs → f x = x) → (∀ x, .str x ∈ outs → new' x = (new x).map f) →
      relabel new' outs = (relabel new outs).map (Value.mapName f)
  | [], _, _ => rfl
  | v :: rest, hold, hnew => by
    have ih := map_relabel (fun x hx => hold x (mem_cons_of_mem _ hx))
      fun x hx => hnew x (mem_cons_of_mem _ hx)
    cases v with
    | str x =>
      rw [relabel, relabel, map_cons, ih, Value.mapName, hnew x mem_cons_self]
      have hx : f x = x := hold x mem_cons_self
      split
      · rw [hx]
      · cases new x with
        | none => rw [Option.map_none, Option.getD_none, hx]
        | some y => rfl
    | none | bool _ | int _ | float _ | list _ | tuple _ | dict _ | object _ _ =>
      rw [relabel, relabel, map_cons, ih]
      · rfl
      all_goals intro _ h; cases h

/-! ## Tensors that are renamed -/

/-- **A tensor that one of the nodes writes in place.** -/
def Overwritten (ns : List Node) (x : String) : Prop := ∃ n ∈ ns, n.InPlace x

namespace Renamer

/-- **A renaming that hands out no name of a tensor**: it starts afresh, all nodes can be treated, and
no tensor of the nodes bears a name that another one gets. -/
structure Apart (s : Renamer) (ns : List Node) : Prop where
  names : s.names = []
  treated : (s.pass ns).2.failed = false
  unused : ∀ n ∈ ns, ∀ x, n.Touches (.str x) → ∀ (i : Nat) (z : String), (s.upTo ns i).name? z ≠ some x

theorem fresh_injective (s : Renamer) : Function.Injective s.fresh := fun _ _ h => (successor_inj.1 h).1

variable {s t : Renamer} {ns : List Node}

theorem upTo_succ_cases (s : Renamer) (ns : List Node) (i : Nat) : s.upTo ns (i + 1) = s.upTo ns i ∨
    ∃ n, ns[i]? = some n ∧ s.upTo ns (i + 1) = ((s.upTo ns i).node n).2 := by
  cases hn : ns[i]? with
  | none =>
    have hlength : ns.length ≤ i := List.getElem?_eq_none_iff.1 hn
    left
    rw [upTo, upTo, take_of_length_le hlength, take_of_length_le (Nat.le_succ_of_le hlength)]
  | some n => exact Or.inr ⟨n, rfl, upTo_succ hn⟩

theorem count_upTo_of_unwritten (hok : (s.pass ns).2.failed = false) (hx : ∀ n ∈ ns, ¬ n.Writes x) (i : Nat) :
    (s.upTo ns i).count x = s.count x := by
  induction i with
  | zero => rfl
  | succ i ih =>
    rcases upTo_succ_cases s ns i with hsame | ⟨n, hn, hnext⟩
    · rw [hsame, ih]
    · rw [hnext, count_node (failed_at hok hn), if_neg fun hrep => hx n (mem_of_getElem? hn) hrep.2, ih]

namespace Apart

theorem keyed (h : s.Apart ns) (i : Nat) : (s.upTo ns i).Keyed :=
  keyed_upTo h.treated (fun e he => absurd he (by simp [h.names])) i

/-- **A tensor is renamed once**, to the next name that it had at the start. -/
theorem name?_upTo_cases (h : s.Apart ns) (hn : n ∈ ns) (hx : n.Touches (.str x)) (i : Nat) :
    ((s.upTo ns i).name? x = none ∧ (s.upTo ns i).count x = s.count x) ∨
      (s.upTo ns i).name? x = some (s.fresh x) ∧ (s.upTo ns i).count x = s.count x + 1 := by
  have hunused := h.unused n hn x hx
  induction i with
  | zero => exact Or.inl ⟨by simp [upTo, pass, name?, h.names], rfl⟩
  | succ i ih =>
    rcases upTo_succ_cases s ns i with hsame | ⟨m, hm, hnext⟩
    · rwa [hsame]
    have hok := failed_at h.treated hm
    rw [hnext, name?_node hok, count_node hok]
    by_cases hrep : (s.upTo ns i).Repeats m x
    · have hnone : (s.upTo ns i).name? x = none := ((repeats_iff (h.keyed i) (hunused i)).1 hrep).2
      have hcount : (s.upTo ns i).count x = s.count x := by
        rcases ih with ⟨-, hcount⟩ | ⟨hsome, -⟩
        · exact hcount
        · rw [hnone] at hsome
          cases hsome
      rw [if_pos hrep, if_pos hrep, fresh, hcount]
      exact Or.inr ⟨rfl, rfl⟩
    · rwa [if_neg hrep, if_neg hrep]

theorem overwritten (h : s.Apart ns) (hn : n ∈ ns) {y : String} (hx : n.Touches (.str x))
    (hy : (s.upTo ns i).name? x = some y) : Overwritten ns x ∧ y = s.fresh x := by
  rcases h.name?_upTo_cases hn hx i with ⟨hnone, -⟩ | ⟨hsome, -⟩
  · rw [hnone] at hy
    cases hy
  · refine ⟨?_, Option.some.inj (hy.symm.trans hsome)⟩
    by_contra hno
    have hnone := (name?_upTo_eq_none_iff h.treated h.names (h.unused n hn x hx) i).2
      fun j m _ hm hin => hno ⟨m, mem_of_getElem? hm, hin⟩
    rw [hnone] at hy
    cases hy

theorem name?_pass (h : s.Apart ns) (hx : Overwritten ns x) :
    (s.pass ns).2.name? x = some (s.fresh x) ∧ (s.pass ns).2.count x = s.count x + 1 := by
  obtain ⟨n, hn, hin⟩ := hx
  obtain ⟨j, hj⟩ := mem_iff_getElem?.1 hn
  have htouches : n.Touches (.str x) := Or.inl hin.1
  rw [← upTo_length]
  refine (h.name?_upTo_cases hn htouches _).resolve_left fun hnone => ?_
  exact (name?_upTo_eq_none_iff h.treated h.names (h.unused n hn x htouches) _).1 hnone.1 j n
    (List.getElem?_eq_some_iff.1 hj).1 hj hin

theorem ne_fresh (h : s.Apart ns) (hn : n ∈ ns) {z : String} (hx : n.Touches (.str x)) (hz : Overwritten ns z) :
    x ≠ s.fresh z := by
  rintro rfl
  refine h.unused n hn _ hx ns.length z ?_
  rw [upTo_length]
  exact (h.name?_pass hz).1

/-- **The names that are handed out**: the next one of each tensor that is written in place. -/
theorem handed_out_iff (h : s.Apart ns) (x : String) (k : Nat) :
    s.count x < k ∧ k ≤ (s.pass ns).2.count x ↔ Overwritten ns x ∧ k = s.count x + 1 := by
  by_cases hx : Overwritten ns x
  · rw [(h.name?_pass hx).2]
    exact ⟨fun ⟨hlow, hhigh⟩ => ⟨hx, by omega⟩, fun ⟨_, hk⟩ => by omega⟩
  · have hcount : (s.pass ns).2.count x = s.count x := by
      rw [← upTo_length]
      by_cases hwrites : ∃ n ∈ ns, n.Writes x
      · obtain ⟨n, hn, hwrites⟩ := hwrites
        rcases h.name?_upTo_cases hn (Or.inr hwrites) ns.length with ⟨-, hcount⟩ | ⟨hsome, -⟩
        · exact hcount
        · exact absurd (h.overwritten hn (Or.inr hwrites) hsome).1 hx
      · exact count_upTo_of_unwritten h.treated (fun n hn hw => hwrites ⟨n, hn, hw⟩) _
    rw [hcount]
    exact ⟨fun ⟨hlow, hhigh⟩ => absurd (hlow.trans_le hhigh) (Nat.lt_irrefl _), fun h => absurd h.1 hx⟩

theorem name?_upTo_eq_none (hs : s.Apart ns) (ht : t.Apart ns) (hn : n ∈ ns) (hx : n.Touches (.str x)) (i : Nat) :
    (s.upTo ns i).name? x = none ↔ (t.upTo ns i).name? x = none := by
  rw [name?_upTo_eq_none_iff hs.treated hs.names (hs.unused n hn x hx),
    name?_upTo_eq_none_iff ht.treated ht.names (ht.unused n hn x hx)]

theorem repeats_upTo (hs : s.Apart ns) (ht : t.Apart ns) (hn : n ∈ ns) (hx : n.Touches (.str x)) (i : Nat) :
    (s.upTo ns i).Repeats n x ↔ (t.upTo ns i).Repeats n x := by
  rw [repeats_upTo_iff hs.treated hs.names (hs.unused n hn x hx),
    repeats_upTo_iff ht.treated ht.names (ht.unused n hn x hx)]

end Apart

/-! ## Two renamings -/

open Classical in
/-- **The names of another renaming** of the same nodes. -/
noncomputable def recounted (s t : Renamer) (ns : List Node) (y : String) : String :=
  if h : ∃ x, Overwritten ns x ∧ y = s.fresh x then t.fresh h.choose else y

theorem recounted_fresh (hx : Overwritten ns x) : recounted s t ns (s.fresh x) = t.fresh x := by
  have h : ∃ z, Overwritten ns z ∧ s.fresh x = s.fresh z := ⟨x, hx, rfl⟩
  rw [recounted, dif_pos h, ← s.fresh_injective h.choose_spec.2]

theorem recounted_other {y : String} (hy : ∀ x, Overwritten ns x → y ≠ s.fresh x) :
    recounted s t ns y = y :=
  dif_neg fun ⟨x, hx, he⟩ => hy x hx he

namespace Apart

variable (hs : s.Apart ns) (ht : t.Apart ns)

include hs

theorem recounted_of_touches (hn : n ∈ ns) (hx : n.Touches (.str x)) : recounted s t ns x = x :=
  recounted_other fun _ hz => hs.ne_fresh hn hx hz

/-- What is given back as a new name is the next one that there was at the start. -/
theorem fresh_upTo (hn : n ∈ ns) (h : (s.upTo ns i).Repeats n x) :
    Overwritten ns x ∧ (s.upTo ns i).fresh x = s.fresh x := by
  have hx : n.Touches (.str x) := Or.inr h.2
  obtain ⟨hin, hnone⟩ := (repeats_iff (hs.keyed i) (hs.unused n hn x hx i)).1 h
  rcases hs.name?_upTo_cases hn hx i with ⟨-, hcount⟩ | ⟨hsome, -⟩
  · exact ⟨⟨n, hn, hin⟩, by rw [fresh, hcount, fresh]⟩
  · rw [hnone] at hsome
    cases hsome

include ht

/-- What is read differs in names that are handed out. -/
theorem current_recounted (hn : n ∈ ns) {v : Value} (hv : v ∈ n.inputs) (i : Nat) :
    (t.upTo ns i).current v = ((s.upTo ns i).current v).mapName (recounted s t ns) := by
  by_cases htext : ∃ x, v = .str x
  · obtain ⟨x, rfl⟩ := htext
    have hx : n.Touches (.str x) := Or.inl hv
    rw [current_str, current_str, Value.mapName]
    cases hname : (s.upTo ns i).name? x with
    | none =>
      rw [(hs.name?_upTo_eq_none ht hn hx i).1 hname, Option.getD_none, hs.recounted_of_touches hn hx]
    | some y =>
      obtain ⟨hover, rfl⟩ := hs.overwritten hn hx hname
      rw [Option.getD_some, recounted_fresh hover]
      rcases ht.name?_upTo_cases hn hx i with ⟨hnone, -⟩ | ⟨hsome, -⟩
      · rw [(hs.name?_upTo_eq_none ht hn hx i).2 hnone] at hname
        cases hname
      · rw [hsome]
        rfl
  · rw [current_other (ht.keyed i) fun x he => htext ⟨x, he⟩,
      current_other (hs.keyed i) fun x he => htext ⟨x, he⟩]
    cases v with
    | str x => exact absurd ⟨x, rfl⟩ htext
    | none | bool _ | int _ | float _ | list _ | tuple _ | dict _ | object _ _ => rfl

/-- **A node renamed from other counts** differs in names that are handed out. -/
theorem node_recounted (hn : ns[i]? = some n) :
    ((t.upTo ns i).node n).1 = ((s.upTo ns i).node n).1.mapNames (recounted s t ns) := by
  have hmem : n ∈ ns := mem_of_getElem? hn
  have hsok := failed_at hs.treated hn
  have htok := failed_at ht.treated hn
  have hinputs : n.inputs.map (t.upTo ns i).current =
      (n.inputs.map (s.upTo ns i).current).map (Value.mapName (recounted s t ns)) := by
    rw [map_map]
    exact map_congr_left fun v hv => hs.current_recounted ht hmem hv i
  have houtputs : relabel (fun x => if .str x ∈ n.inputs.map (t.upTo ns i).current then
        some ((t.upTo ns i).fresh x) else none) n.outputs =
      (relabel (fun x => if .str x ∈ n.inputs.map (s.upTo ns i).current then
        some ((s.upTo ns i).fresh x) else none) n.outputs).map (Value.mapName (recounted s t ns)) := by
    refine map_relabel (fun x hx => hs.recounted_of_touches hmem (Or.inr hx)) fun x hx => ?_
    have hrepeats := hs.repeats_upTo ht hmem (x := x) (Or.inr hx) i
    by_cases hrep : (s.upTo ns i).Repeats n x
    · obtain ⟨hover, hfresh⟩ := hs.fresh_upTo hmem hrep
      rw [if_pos hrep.1, if_pos (hrepeats.1 hrep).1, (ht.fresh_upTo hmem (hrepeats.1 hrep)).2, hfresh,
        Option.map_some, recounted_fresh hover]
    · rw [if_neg fun h => hrep ⟨h, hx⟩, if_neg fun h => hrep (hrepeats.2 ⟨h, hx⟩), Option.map_none]
  rw [node_frame hsok, node_frame htok, Node.mapNames, inputs_node hsok, inputs_node htok,
    outputs_node hsok, outputs_node htok, houtputs, hinputs]

/-- **The same nodes renamed from other counts** differ in names that are handed out. -/
theorem pass_recounted : (t.pass ns).1 = (s.pass ns).1.map (Node.mapNames (recounted s t ns)) := by
  refine ext_getElem? fun i => ?_
  rw [getElem?_map, getElem?_pass, getElem?_pass]
  cases hn : ns[i]? with
  | none => rfl
  | some n => rw [Option.map_some, Option.map_some, Option.map_some, hs.node_recounted ht hn]

end Apart

end Renamer

end ModelExport
