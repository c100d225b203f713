import Mathlib.Data.List.Chain
import ModelExport.Proofs.Renaming.Meaning

/-!
# Proofs/Renaming/Chains — a tensor written over again and again

A tensor can be written in place by several nodes before it is read (`OverwriteChain`).  Renaming looks
for outputs among inputs that already have their current names, so a node that follows an in-place
writer is taken for one that does not read what it writes: it keeps the old name, and its result is not
handed on.
-/

namespace ModelExport

open List

variable {n : Node} {i j : Nat} {x : String}

/-- **Nodes at `places` write a tensor in place**, one after another and without other writers in
between, before the node at `reader` reads it. -/
structure OverwriteChain (ns : List Node) (x : String) (places : List Nat) (reader : Nat) : Prop where
  consecutive : (places ++ [reader]).IsChain fun i j =>
    i < j ∧ ∀ m, i < m → m < j → ∀ n, ns[m]? = some n → ¬ n.Writes x
  inPlace : ∀ i ∈ places, ∃ n, ns[i]? = some n ∧ n.InPlace x
  read : ∃ n, ns[reader]? = some n ∧ n.Reads x

/-- **A result is handed on**: where the node at `j` used to read `x`, it now reads the name that the
node at `i` now writes where it used to write `x` last. -/
def HandedOn (ns ns' : List Node) (x : String) (i j : Nat) : Prop :=
  ∃ (n n' m m' : Node) (p : Nat) (y : String), ns[i]? = some n ∧ ns'[i]? = some n' ∧
    ns[j]? = some m ∧ ns'[j]? = some m' ∧ lastPlace x n.outputs = some p ∧
    n'.outputs[p]? = some (.str y) ∧ ∀ q : Nat, m.inputs[q]? = some (.str x) → m'.inputs[q]? = some (.str y)

theorem handedOn_map_renewed (ns ns' : List Node) (x : String) (i j : Nat) :
    HandedOn ns (ns'.map Node.renewed) x i j ↔ HandedOn ns ns' x i j := by
  unfold HandedOn
  simp only [getElem?_map, Option.map_eq_some_iff]
  constructor
  · rintro ⟨n, _, m, _, p, y, hn, ⟨n', hn', rfl⟩, hm, ⟨m', hm', rfl⟩, h⟩
    exact ⟨n, n', m, m', p, y, hn, hn', hm, hm', h⟩
  · rintro ⟨n, n', m, m', p, y, hn, hn', hm, hm', h⟩
    exact ⟨n, n'.renewed, m, m'.renewed, p, y, hn, ⟨n', hn', rfl⟩, hm, ⟨m', hm', rfl⟩, h⟩

namespace Renamer

/-- A node that finds `x` under its own name and writes it is renamed at `x`. -/
theorem repeats_of_own_name {s : Renamer} (hin : n.InPlace x) (hx : (s.name? x).getD x = x) :
    s.Repeats n x := by
  refine ⟨mem_map.2 ⟨.str x, hin.1, ?_⟩, hin.2⟩
  rw [current_str, hx]

/-- **A node is renamed at `x` when it writes `x` in place and `x` has no new name yet**, where `x` is
itself no new name. -/
theorem repeats_iff {s : Renamer} (hs : s.Keyed) (hx : ∀ z, s.name? z ≠ some x) :
    s.Repeats n x ↔ n.InPlace x ∧ s.name? x = none := by
  refine ⟨fun ⟨hin, hout⟩ => ?_, fun ⟨hin, hname⟩ => repeats_of_own_name hin (by rw [hname]; rfl)⟩
  obtain ⟨v, hread, hv⟩ := mem_map.1 hin
  by_cases htext : ∃ z, v = .str z
  · obtain ⟨z, rfl⟩ := htext
    rw [current_str] at hv
    cases hz : s.name? z with
    | none =>
      obtain rfl : z = x := by simpa [hz] using hv
      exact ⟨⟨hread, hout⟩, hz⟩
    | some y =>
      obtain rfl : y = x := by simpa [hz] using hv
      exact absurd hz (hx z)
  · rw [current_other hs fun z hz => htext ⟨z, hz⟩] at hv
    exact absurd ⟨x, hv⟩ htext

variable {s : Renamer} {ns : List Node} (hok : (s.pass ns).2.failed = false)

include hok

/-! ## Handing on -/

theorem getElem?_outputs_pass {p : Nat} {n' : Node} (hn : ns[i]? = some n) (hn' : (s.pass ns).1[i]? = some n')
    (hp : lastPlace x n.outputs = some p) :
    n'.outputs[p]? =
      some (.str (if (s.upTo ns i).Repeats n x then (s.upTo ns i).fresh x else x)) := by
  rw [getElem?_pass, hn] at hn'
  obtain rfl := Option.some.inj hn'
  exact getElem?_outputs_node (failed_at hok hn) hp

theorem inputs_pass {n' : Node} (hn : ns[i]? = some n) (hn' : (s.pass ns).1[i]? = some n') :
    n'.inputs = n.inputs.map (s.upTo ns i).current := by
  rw [getElem?_pass, hn] at hn'
  obtain rfl := Option.some.inj hn'
  exact inputs_node (failed_at hok hn)

theorem handedOn_iff {m : Node} (hn : ns[i]? = some n) (hm : ns[j]? = some m) (hwrites : n.Writes x)
    (hreads : m.Reads x) :
    HandedOn ns (s.pass ns).1 x i j ↔ ((s.upTo ns j).name? x).getD x =
      if (s.upTo ns i).Repeats n x then (s.upTo ns i).fresh x else x := by
  obtain ⟨p, hp⟩ : ∃ p, lastPlace x n.outputs = some p := by
    rw [← Option.ne_none_iff_exists', Ne, lastPlace_eq_none, not_not]
    exact hwrites
  obtain ⟨q, hq⟩ := mem_iff_getElem?.1 hreads
  have hread : ∀ {m' : Node}, (s.pass ns).1[j]? = some m' → ∀ q : Nat, m.inputs[q]? = some (.str x) →
      m'.inputs[q]? = some (.str (((s.upTo ns j).name? x).getD x)) := by
    intro m' hm' q hq
    rw [inputs_pass hok hm hm', getElem?_map, hq, Option.map_some, current_str]
  constructor
  · rintro ⟨n₁, n', m₁, m', p₁, y, hn₁, hn', hm₁, hm', hp₁, hout, hin⟩
    obtain rfl := Option.some.inj (hn.symm.trans hn₁)
    obtain rfl := Option.some.inj (hm.symm.trans hm₁)
    have hy := (getElem?_outputs_pass hok hn hn' hp₁).symm.trans hout
    have hx := (hread hm' q hq).symm.trans (hin q hq)
    simp only [Option.some.injEq, Value.str.injEq] at hx hy
    rw [hx, hy]
  · intro h
    obtain ⟨n', hn'⟩ : ∃ n', (s.pass ns).1[i]? = some n' := by rw [getElem?_pass, hn]; exact ⟨_, rfl⟩
    obtain ⟨m', hm'⟩ : ∃ m', (s.pass ns).1[j]? = some m' := by rw [getElem?_pass, hm]; exact ⟨_, rfl⟩
    exact ⟨n, n', m, m', p, _, hn, hn', hm, hm', hp, getElem?_outputs_pass hok hn hn' hp,
      h ▸ hread hm'⟩

/-- **A link of a chain holds just when the writer still reads `x`** — under current names. -/
theorem handedOn_iff_repeats {m : Node} (hn : ns[i]? = some n) (hm : ns[j]? = some m) (hin : n.InPlace x)
    (hreads : m.Reads x) (hij : i < j) (hno : ∀ l, i < l → l < j → ∀ n, ns[l]? = some n → ¬ n.Writes x) :
    HandedOn ns (s.pass ns).1 x i j ↔ (s.upTo ns i).Repeats n x := by
  have hname : (s.upTo ns j).name? x =
      if (s.upTo ns i).Repeats n x then some ((s.upTo ns i).fresh x) else (s.upTo ns i).name? x := by
    rw [name?_upTo_of_unwritten hok (Nat.succ_le_of_lt hij) fun l hl => hno l (Nat.lt_of_succ_le hl),
      upTo_succ hn, name?_node (failed_at hok hn)]
  rw [handedOn_iff hok hn hm hin.2 hreads, hname]
  by_cases hrep : (s.upTo ns i).Repeats n x
  · simp [hrep]
  · rw [if_neg hrep, if_neg hrep]
    exact iff_of_false (fun he => hrep (repeats_of_own_name hin he)) hrep

theorem isSome_name?_after (hn : ns[i]? = some n) (hin : n.InPlace x) (hij : i < j) :
    ((s.upTo ns j).name? x).isSome = true := by
  refine isSome_name?_upTo hok (Nat.succ_le_of_lt hij) ?_
  rw [upTo_succ hn, name?_node (failed_at hok hn)]
  by_cases hrep : (s.upTo ns i).Repeats n x
  · simp [hrep]
  · rw [if_neg hrep]
    by_contra hnone
    exact hrep (repeats_of_own_name hin (by rw [Option.not_isSome_iff_eq_none.1 hnone]; rfl))

end Renamer

/-! ## Chains -/

/-- A chain of links, each settled by its first end. -/
theorem isChain_iff_forall {R : Nat → Nat → Prop} {P : Nat → Prop} : ∀ (is : List Nat) {j : Nat},
    (is ++ [j]).IsChain (fun a b => R a b ↔ P a) → ((is ++ [j]).IsChain R ↔ ∀ i ∈ is, P i)
  | [], j, _ => by simp
  | [i], j, h => by
      have hij : R i j ↔ P i := by simpa using h
      simpa using hij
  | i :: i' :: is, j, h => by
      obtain ⟨hlink, hrest⟩ := isChain_cons_cons.1 h
      have ih := isChain_iff_forall (i' :: is) hrest
      rw [cons_append, cons_append, isChain_cons_cons, ← cons_append, ih, hlink]
      exact forall_mem_cons.symm

namespace OverwriteChain

variable {ns : List Node} {x : String} {places : List Nat} {reader : Nat}
  (h : OverwriteChain ns x places reader)

include h

theorem reads_of_mem (hj : j ∈ places ++ [reader]) : ∃ m, ns[j]? = some m ∧ m.Reads x := by
  rcases mem_append.1 hj with hj | hj
  · obtain ⟨m, hm, hin⟩ := h.inPlace j hj
    exact ⟨m, hm, hin.1⟩
  · rw [mem_singleton.1 hj]
    exact h.read

theorem pairwise_lt : (places ++ [reader]).Pairwise (· < ·) :=
  (h.consecutive.imp fun _ _ hij => hij.1).pairwise

theorem le_reader (hj : j ∈ places ++ [reader]) : j ≤ reader := by
  rcases mem_append.1 hj with hj | hj
  · exact ((pairwise_append.1 h.pairwise_lt).2.2 j hj reader (by simp)).le
  · exact (mem_singleton.1 hj).le

theorem links {R : Nat → Nat → Prop} (hR : ∀ i ∈ places, ∀ j ∈ places ++ [reader], i < j →
      (∀ m, i < m → m < j → ∀ n, ns[m]? = some n → ¬ n.Writes x) → R i j) :
    (places ++ [reader]).IsChain R := by
  refine h.consecutive.imp_of_mem_imp fun i j hi hj hij => hR i ?_ j hj hij.1 hij.2
  have hne : i ≠ reader := (hij.1.trans_le (h.le_reader hj)).ne
  simpa [hne] using hi

theorem first_lt {i₀ : Nat} {is : List Nat} (he : places = i₀ :: is) (hi : i ∈ is) : i₀ < i := by
  have hlt := h.pairwise_lt
  rw [he] at hlt
  exact (pairwise_cons.1 hlt).1 i (mem_append_left _ hi)

section Pass

variable {s : Renamer} (hok : (s.pass ns).2.failed = false)

include hok

/-- **A chain is intact just when each of its writers still reads `x`.** -/
theorem isChain_handedOn_iff : (places ++ [reader]).IsChain (HandedOn ns (s.pass ns).1 x) ↔
    ∀ i ∈ places, ∃ n', (s.pass ns).1[i]? = some n' ∧ n'.Reads x := by
  refine isChain_iff_forall places (h.links fun i hi j hj hij hno => ?_)
  obtain ⟨n, hn, hin⟩ := h.inPlace i hi
  obtain ⟨m, hm, hreads⟩ := h.reads_of_mem hj
  rw [Renamer.handedOn_iff_repeats hok hn hm hin hreads hij hno]
  constructor
  · intro hrep
    refine ⟨_, by rw [Renamer.getElem?_pass, hn]; rfl, ?_⟩
    rw [Node.Reads, Renamer.inputs_node (Renamer.failed_at hok hn)]
    exact hrep.1
  · rintro ⟨n', hn', hreads'⟩
    rw [Node.Reads, Renamer.inputs_pass hok hn hn'] at hreads'
    exact ⟨hreads', hin.2⟩

/-- **Only the first writer hands its result on**, unless `x` is itself a new name. -/
theorem not_handedOn_of_tail (hs : s.names = []) (hx : ∀ n ∈ ns, ∀ y k, n.Writes y → x ≠ Renamer.successor y k)
    (hi : i ∈ places.tail) (hj : j ∈ places ++ [reader]) (hij : i < j) : ¬ HandedOn ns (s.pass ns).1 x i j := by
  obtain ⟨i₀, is, rfl⟩ : ∃ i₀ is, places = i₀ :: is := by
    cases places with
    | nil => simp at hi
    | cons i₀ is => exact ⟨i₀, is, rfl⟩
  obtain ⟨n₀, hn₀, hin₀⟩ := h.inPlace i₀ mem_cons_self
  obtain ⟨n, hn, hin⟩ := h.inPlace i (mem_cons_of_mem _ hi)
  obtain ⟨m, hm, hreads⟩ := h.reads_of_mem hj
  have hlt : i₀ < i := h.first_lt rfl hi
  have hkeyed : (s.upTo ns i).Keyed :=
    Renamer.keyed_upTo hok (fun e he => absurd he (by simp [hs])) i
  have hnew : ∀ z, (s.upTo ns i).name? z ≠ some x := fun z hz => by
    obtain ⟨⟨m, hm, hwrites⟩, k, hk, -⟩ := Renamer.origin_upTo hok hs i hz
    exact hx m hm z k hwrites hk
  have hrep : ¬ (s.upTo ns i).Repeats n x := fun hrep => by
    have hsome := Renamer.isSome_name?_after hok hn₀ hin₀ hlt
    rw [((Renamer.repeats_iff hkeyed hnew).1 hrep).2] at hsome
    cases hsome
  rw [Renamer.handedOn_iff hok hn hm hin.2 hreads, if_neg hrep]
  obtain ⟨y, hy⟩ := Option.isSome_iff_exists.1
    (Renamer.isSome_name?_after hok hn₀ hin₀ (hlt.trans hij))
  obtain ⟨-, k, rfl, -⟩ := Renamer.origin_upTo hok hs j hy
  rw [hy, Option.getD_some]
  exact successor_ne x k

end Pass

end OverwriteChain

/-! ## The pass on a draft -/

/-- **When a chain of in-place writes survives.**  Renaming succeeds on tensors that have names.  After
it, a chain hands on all its results exactly when each of its writers still reads `x`; and where `x`
is no successor of a written tensor, no writer but the first hands its result on: every chain of two
or more writers is broken. -/
theorem overwriteChain_intact_iff (d : Draft) (hkept : d.nodes.Kept) :
    (Named (d.nodes.map Prod.snd) → ∃ d', EStateM.run (Emit.renameInPlace .model) d = .ok () d') ∧
    ∀ d', EStateM.run (Emit.renameInPlace .model) d = .ok () d' → ∀ x places reader,
      OverwriteChain (d.nodes.map Prod.snd) x places reader →
      let Handed := HandedOn (d.nodes.map Prod.snd) (d'.nodes.map Prod.snd) x
      ((places ++ [reader]).IsChain Handed ↔
        ∀ i ∈ places, ∃ n', (d'.nodes.map Prod.snd)[i]? = some n' ∧ n'.Reads x) ∧
      ((∀ n ∈ d.nodes.map Prod.snd, ∀ y k, n.Writes y → x ≠ Renamer.successor y k) →
        (∀ i ∈ places.tail, ∀ j ∈ places ++ [reader], i < j → ¬ Handed i j) ∧
        (2 ≤ places.length → ¬ (places ++ [reader]).IsChain Handed)) := by
  set ns := d.nodes.map Prod.snd
  set s : Renamer := { names := [], counts := d.renames }
  refine ⟨fun hnamed => (Emit.run_renameInPlace hkept).1.1
    (Renamer.failed_pass ns hnamed.inputs hnamed.outputs), fun d' hrun x places reader h => ?_⟩
  obtain ⟨hok, hd'⟩ := Emit.renameInPlace_ok hkept hrun
  obtain rfl : d' = d.withNodes (NodeMap.ofNodes ((s.pass ns).1.map Node.renewed)) (s.pass ns).2 := hd'
  simp only [Draft.nodes_withNodes]
  have hhanded : HandedOn ns ((s.pass ns).1.map Node.renewed) x = HandedOn ns (s.pass ns).1 x := by
    ext i j
    exact handedOn_map_renewed ns _ x i j
  have hreads : ∀ i : Nat, (∃ n', ((s.pass ns).1.map Node.renewed)[i]? = some n' ∧ n'.Reads x) ↔
      ∃ n', (s.pass ns).1[i]? = some n' ∧ n'.Reads x := by
    intro i
    rw [List.getElem?_map]
    simp only [Option.map_eq_some_iff]
    constructor
    · rintro ⟨_, ⟨n', hn', rfl⟩, hr⟩
      exact ⟨n', hn', hr⟩
    · rintro ⟨n', hn', hr⟩
      exact ⟨_, ⟨n', hn', rfl⟩, hr⟩
  simp only [hhanded, hreads]
  refine ⟨h.isChain_handedOn_iff hok, fun hx => ⟨fun i hi j hj hij => ?_, fun hlen hchain => ?_⟩⟩
  · exact h.not_handedOn_of_tail hok rfl hx hi hj hij
  · have hne : places ≠ [] := List.ne_nil_of_length_pos (by omega)
    have hlast := hchain.rel_getLast_head_of_append hne (List.cons_ne_nil reader [])
    refine h.not_handedOn_of_tail hok rfl hx ?_ (by simp) ?_ hlast
    · match places, hlen with
      | i₀ :: i :: is, _ => simp [List.getLast_cons]
    · exact (List.pairwise_append.1 h.pairwise_lt).2.2 _ (List.getLast_mem hne) _ (by simp)

/-- Two activations in place, then a reader. -/
def activatedTwice : Draft :=
  { opset := 9
    nodes := NodeMap.ofNodes
      [{ type := "Relu", name := "Relu_0", inputs := [.str "x"], outputs := [.str "x"], attrs := [],
         domain := .none },
       { type := "Tanh", name := "Tanh_0", inputs := [.str "x"], outputs := [.str "x"], attrs := [],
         domain := .none },
       { type := "Abs", name := "Abs_0", inputs := [.str "x"], outputs := [.str "y"], attrs := [],
         domain := .none }] }

theorem kept_activatedTwice : activatedTwice.nodes.Kept := by
  refine ⟨by decide, by decide, by decide, ?_⟩
  simp [activatedTwice, NodeMap.ofNodes, Node.Recordable]

theorem named_activatedTwice : Named (activatedTwice.nodes.map Prod.snd) := by
  constructor <;> simp [activatedTwice, NodeMap.ofNodes, Value.isKey]

theorem overwriteChain_activatedTwice :
    OverwriteChain (activatedTwice.nodes.map Prod.snd) "x" [0, 1] 2 := by
  refine ⟨?_, ?_, ?_⟩
  · simp only [cons_append, nil_append, isChain_cons_cons, isChain_singleton]
    exact ⟨⟨by omega, fun m _ _ => by omega⟩, ⟨by omega, fun m _ _ => by omega⟩, trivial⟩
  · simp [activatedTwice, NodeMap.ofNodes, Node.InPlace, Node.Reads, Node.Writes]
  · simp [activatedTwice, NodeMap.ofNodes, Node.Reads]

theorem overwriteChain_intact_iff_activatedTwice :
    activatedTwice.nodes.Kept ∧ OverwriteChain (activatedTwice.nodes.map Prod.snd) "x" [0, 1] 2 ∧
      ∃ d', EStateM.run (Emit.renameInPlace .model) activatedTwice = .ok () d' ∧
        ¬ HandedOn (activatedTwice.nodes.map Prod.snd) (d'.nodes.map Prod.snd) "x" 1 2 := by
  refine ⟨kept_activatedTwice, overwriteChain_activatedTwice, ?_⟩
  obtain ⟨hruns, hchains⟩ := overwriteChain_intact_iff activatedTwice kept_activatedTwice
  obtain ⟨d', hrun⟩ := hruns named_activatedTwice
  obtain ⟨-, hbroken⟩ := hchains d' hrun "x" [0, 1] 2 overwriteChain_activatedTwice
  refine ⟨d', hrun, (hbroken fun n _ y k _ he => ?_).1 1 (by simp) 2 (by simp) (by omega)⟩
  exact successor_ne_of_dotless y k (by decide) he.symm

end ModelExport
