import ModelExport.Proofs.Renaming.Step

/-!
# Proofs/Evaluation — nodes as programs over named tensors

A node, seen from outside, reads some tensors and writes others (`Access`).  A list of nodes runs in
order over a store: each one reads, computes, and overwrites what it writes.
-/

namespace ModelExport

open List

variable {x : String} {a : Access}

variable {τ : Type*}

/-- What each tensor holds. -/
abbrev Store (τ : Type*) := Value → τ

/-- **What nodes compute**: from the place of a node in its list and the values it reads, the value of
each of its outputs. -/
abbrev Kernel (τ : Type*) := Nat → List τ → Nat → τ

structure Access where
  reads : List Value
  writes : List Value

def Node.access (n : Node) : Access := { reads := n.inputs, writes := n.outputs }

def ModelNode.access (n : ModelNode) : Access := { reads := n.inputs, writes := n.outputs }

/-! ## Stores -/

def Store.put (σ : Store τ) (o : Value) (t : τ) : Store τ := fun v => if v.same o then t else σ v

/-- The store with tensors overwritten one after another. -/
def Store.write (σ : Store τ) : List Value → List τ → Store τ
  | o :: outs, t :: ts => Store.write (σ.put o t) outs ts
  | _, _ => σ

theorem Store.put_str (σ : Store τ) (x : String) (t : τ) (v : Value) [Decidable (v = .str x)] :
    σ.put (.str x) t v = if v = .str x then t else σ v := by
  unfold put
  exact if_congr (same_str_right v x) rfl rfl

/-- **Writing under other names.**  Two stores agree at a tensor `v` and at its new name `g v` after
a write, when they did before or the write covers `v`. -/
theorem Store.write_map {g : Value → Value} {v : Value} : ∀ {outs : List Value} {ts : List τ}
    {σ σ' : Store τ}, ts.length = outs.length → (∀ o ∈ outs, ∃ x y, o = .str x ∧ g o = .str y) →
    (∀ o ∈ outs, g v = g o → v = o) → (v ∉ outs → σ v = σ' (g v)) →
      σ.write outs ts v = σ'.write (outs.map g) ts (g v)
  | [], _, _, _, _, _, _, h => by
      simpa [write] using h
  | o :: outs, [], _, _, hlen, _, _, _ => absurd hlen (by simp)
  | o :: outs, t :: ts, σ, σ', hlen, htext, hinj, h => by
      obtain ⟨x, y, rfl, hy⟩ := htext o mem_cons_self
      have hv : g v = .str y ↔ v = .str x :=
        ⟨fun he => hinj _ mem_cons_self (he.trans hy.symm), fun he => he ▸ hy⟩
      rw [write, map_cons, write]
      refine write_map (by simpa using hlen) (fun o ho => htext o (mem_cons_of_mem _ ho))
        (fun o ho => hinj o (mem_cons_of_mem _ ho)) fun hnot => ?_
      classical
      rw [hy, put_str, put_str]
      by_cases he : v = .str x
      · rw [if_pos he, if_pos (hv.2 he)]
      · rw [if_neg he, if_neg (mt hv.1 he)]
        exact h fun hmem => (mem_cons.1 hmem).elim he hnot

/-! ## Runs -/

namespace Access

/-- The values that the node at a place computes, output by output. -/
def results (f : Kernel τ) (i : Nat) (σ : Store τ) (a : Access) : List τ :=
  (List.range a.writes.length).map (f i (a.reads.map σ))

def exec (f : Kernel τ) (i : Nat) (σ : Store τ) (a : Access) : Store τ :=
  σ.write a.writes (a.results f i σ)

theorem length_results (f : Kernel τ) (i : Nat) (σ : Store τ) (a : Access) :
    (a.results f i σ).length = a.writes.length := by
  simp [results]

/-- When a store `σ'` holds under new names what `σ` holds, a node that reads under these names
computes the same. -/
theorem results_map {f : Kernel τ} {i : Nat} {σ σ' : Store τ} {a' : Access} {g : Value → Value}
    (hin : a'.reads = a.reads.map g) (hout : a'.writes.length = a.writes.length)
    (h : ∀ v ∈ a.reads, σ v = σ' (g v)) : a'.results f i σ' = a.results f i σ := by
  have hvals : a'.reads.map σ' = a.reads.map σ := by
    rw [hin, map_map]
    exact map_congr_left fun v hv => (h v hv).symm
  rw [results, results, hvals, hout]

/-- **What the nodes from place `i` on compute**, one after another, and the store after them. -/
def evaluate (f : Kernel τ) (i : Nat) (σ : Store τ) : List Access → List (List τ) × Store τ
  | [] => ([], σ)
  | a :: rest =>
    let r := evaluate f (i + 1) (a.exec f i σ) rest
    (a.results f i σ :: r.1, r.2)

theorem evaluate_append (f : Kernel τ) (i : Nat) (σ : Store τ) (as bs : List Access) :
    (evaluate f i σ (as ++ bs)).2 = (evaluate f (i + as.length) (evaluate f i σ as).2 bs).2 := by
  induction as generalizing i σ with
  | nil => rfl
  | cons a as ih =>
    rw [cons_append, evaluate, ih, length_cons, Nat.add_right_comm, Nat.add_assoc]
    rfl

end Access

/-! ## Final writes -/

/-- **The write that a tensor ends with**: the place of the node, and the place among its outputs. -/
def lastWrite (x : String) : List Access → Option (Nat × Nat)
  | [] => none
  | a :: rest => match lastWrite x rest with
    | some (i, p) => some (i + 1, p)
    | none => (lastPlace x a.writes).map fun p => (0, p)

theorem lastWrite_eq_none (x : String) : ∀ as : List Access,
    lastWrite x as = none ↔ ∀ a ∈ as, .str x ∉ a.writes
  | [] => by simp [lastWrite]
  | a :: rest => by
      have ih := lastWrite_eq_none x rest
      rw [lastWrite, forall_mem_cons, ← ih]
      cases h : lastWrite x rest with
      | some e => simp
      | none => simp [lastPlace_eq_none]

def UnwrittenBehind (x : String) (as : List Access) (i : Nat) : Prop :=
  ∀ (j : Nat) (b : Access), i < j → as[j]? = some b → .str x ∉ b.writes

theorem unwrittenBehind_cons_succ {rest : List Access} {i : Nat} :
    UnwrittenBehind x (a :: rest) (i + 1) ↔ UnwrittenBehind x rest i :=
  ⟨fun h j b hij hb => h (j + 1) b (Nat.succ_lt_succ hij) hb, fun h j b hij hb => by
    cases j with
    | zero => exact absurd hij (Nat.not_lt_zero _)
    | succ j => exact h j b (Nat.lt_of_succ_lt_succ hij) hb⟩

theorem unwrittenBehind_cons_zero {rest : List Access} :
    UnwrittenBehind x (a :: rest) 0 ↔ lastWrite x rest = none := by
  rw [lastWrite_eq_none]
  refine ⟨fun h b hb => ?_, fun h j b hij hb => ?_⟩
  · obtain ⟨j, hj⟩ := mem_iff_getElem?.1 hb
    exact h (j + 1) b (Nat.succ_pos j) hj
  · cases j with
    | zero => exact absurd hij (Nat.lt_irrefl 0)
    | succ j => exact h b (mem_of_getElem? hb)

/-- **The final write stands where the tensor is written and nothing behind writes it.** -/
theorem lastWrite_eq_some (x : String) : ∀ (as : List Access) (i p : Nat),
    lastWrite x as = some (i, p) ↔
      ∃ a, as[i]? = some a ∧ lastPlace x a.writes = some p ∧ UnwrittenBehind x as i
  | [], i, p => by simp [lastWrite]
  | a :: rest, 0, p => by
      rw [lastWrite, unwrittenBehind_cons_zero]
      cases lastWrite x rest <;> simp
  | a :: rest, i + 1, p => by
      have ih := lastWrite_eq_some x rest i p
      rw [unwrittenBehind_cons_succ, getElem?_cons_succ, ← ih, lastWrite]
      cases lastWrite x rest <;> simp [Prod.ext_iff]

theorem lastWrite_append (x : String) (as bs : List Access) : lastWrite x (as ++ bs) =
    match lastWrite x bs with
    | some (i, p) => some (as.length + i, p)
    | none => lastWrite x as := by
  induction as with
  | nil => cases h : lastWrite x bs <;> simp [h, lastWrite]
  | cons a as ih =>
    rw [cons_append, lastWrite, ih]
    cases h : lastWrite x bs with
    | none => rfl
    | some e => simp [Nat.add_right_comm]

theorem lastWrite_append_inj {as bs cs : List Access} (h : lastWrite x bs = none → lastWrite x cs = none) :
    lastWrite x (as ++ cs) = lastWrite x (as ++ bs) ↔ lastWrite x cs = lastWrite x bs := by
  have hlt : ∀ {i p : Nat}, lastWrite x as = some (as.length + i, p) → False := fun he => by
    obtain ⟨a, ha, -⟩ := (lastWrite_eq_some x as _ _).1 he
    have := (List.getElem?_eq_some_iff.1 ha).1
    omega
  rw [lastWrite_append, lastWrite_append]
  cases hb : lastWrite x bs with
  | none => simp [h hb]
  | some e =>
    cases hc : lastWrite x cs with
    | none => exact iff_of_false hlt (Option.some_ne_none e).symm
    | some e' => simp [Prod.ext_iff]

theorem Store.write_of_not_mem : ∀ {outs : List Value} {ts : List τ} {σ : Store τ},
    .str x ∉ outs → σ.write outs ts (.str x) = σ (.str x)
  | [], _, _, _ => rfl
  | _ :: _, [], _, _ => rfl
  | o :: outs, t :: ts, σ, h => by
      rw [mem_cons, not_or] at h
      rw [write, write_of_not_mem h.2, put, if_neg]
      rw [same_str_left]
      exact fun ho => h.1 ho.symm

theorem Access.evaluate_of_unwritten (f : Kernel τ) : ∀ (as : List Access) (i : Nat)
    (σ : Store τ), (∀ a ∈ as, .str x ∉ a.writes) → (evaluate f i σ as).2 (.str x) = σ (.str x)
  | [], _, _, _ => rfl
  | a :: as, i, σ, h => by
      obtain ⟨ha, has⟩ := forall_mem_cons.1 h
      rw [evaluate, evaluate_of_unwritten f as (i + 1) _ has, exec, Store.write_of_not_mem ha]

/-! ### Tracing

Nodes that give their own place as a value show which write a tensor ends with. -/

/-- The kernel whose values are places. -/
def Kernel.trace : Kernel (Option (Nat × Nat)) := fun i _ p => some (i, p)

theorem Store.write_lastPlace {g : Nat → τ} : ∀ (outs : List Value) (k : Nat)
    (σ : Store τ), σ.write outs ((List.range' k outs.length).map g) (.str x) =
      match lastPlace x outs with
      | some p => g (k + p)
      | none => σ (.str x)
  | [], _, _ => rfl
  | o :: outs, k, σ => by
      rw [length_cons, range'_succ, map_cons, write, write_lastPlace outs (k + 1),
        lastPlace]
      cases h : lastPlace x outs with
      | some p => simp [Nat.add_right_comm, Nat.add_assoc]
      | none =>
        by_cases ho : o = .str x
        · subst ho
          simp [put]
        · have hl : ¬ (Value.str x).same o = true := by rwa [same_str_left]
          have hr : ¬ o.same (.str x) = true := by rwa [same_str_right]
          simp [put, hl, hr]

/-- **What the trace leaves in a tensor is its final write.** -/
theorem Access.evaluate_trace (x : String) : ∀ (as : List Access) (i : Nat)
    (σ : Store (Option (Nat × Nat))), (evaluate Kernel.trace i σ as).2 (.str x) =
      match lastWrite x as with
      | some (j, p) => some (i + j, p)
      | none => σ (.str x)
  | [], _, _ => rfl
  | a :: as, i, σ => by
      have hwrite := σ.write_lastPlace (x := x) (g := Kernel.trace i (a.reads.map σ)) a.writes 0
      rw [evaluate, evaluate_trace x as (i + 1), lastWrite, exec, results, range_eq_range', hwrite]
      cases lastWrite x as with
      | some e => simp [Nat.add_right_comm, Nat.add_assoc]
      | none => cases lastPlace x a.writes <;> simp [Kernel.trace]

theorem Access.evaluate_trace_empty (x : String) (as : List Access) :
    (evaluate Kernel.trace 0 (fun _ => none) as).2 (.str x) = lastWrite x as := by
  rw [evaluate_trace]
  cases lastWrite x as <;> simp

end ModelExport
