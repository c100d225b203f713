import ModelExport.Layer
import ModelExport.Proofs.Rebuilding

/-!
# Proofs/Tracing — a traced program is rebuilt in a copy of its own

    shelf   … p …   ──clone──▸   … p … p   ──scale──▸   … p … p'   ──rebuild──▸   … p … q

Tracing works on a copy of the program that a layer was traced to.  The scalings go into the copy, since
its guard is the innermost one, and the interface of the copy is rebuilt as that of any other program
(`traced_as_rebuilt`).
-/

namespace ModelExport

open List

/-! ## The last program of a shelf -/

def Shelf.push (s : Shelf) (p : Program) : Shelf := { s with programs := s.programs ++ [p] }

namespace Shelf

variable {s : Shelf} {p : Program}

theorem getElem?_push_length (s : Shelf) (p : Program) :
    (s.push p).programs[s.programs.length]? = some p :=
  getElem?_concat_length

/-- **Programs that are there stay** when one more is put behind them. -/
theorem getElem?_push {place : Nat} (hp : s.programs[place]? = some p) (q : Program) :
    (s.push q).programs[place]? = some p := by
  rw [push, getElem?_append_left (List.getElem?_eq_some_iff.1 hp).1, hp]

theorem set_push (s : Shelf) (p q : Program) :
    { s.push p with programs := (s.push p).programs.set s.programs.length q } = s.push q := by
  simp [push]

end Shelf

namespace ShelfEdit

variable {α : Type} {s s' : Shelf} {p q : Program} {place : Nat} {a : α} {f : Fault} {e : ProgramEdit α}

theorem run_program (hp : s.programs[place]? = some p) : EStateM.run (program place) s = .ok p s := by
  unfold program
  rw [EStateM.run_bind, EStateM.run_get]
  simp only [hp]
  rfl

theorem run_clone (hp : s.programs[place]? = some p) :
    EStateM.run (clone place) s = .ok s.programs.length (s.push p) := by
  rw [clone, EStateM.run_bind, run_program hp]
  rfl

/-- The last program is changed, and the others are left alone. -/
theorem run_edit_push (h : EStateM.run e p = .ok a q) :
    EStateM.run (edit s.programs.length e) (s.push p) = .ok a (s.push q) := by
  unfold edit
  rw [EStateM.run_bind, run_program (s.getElem?_push_length p)]
  simp only [h]
  exact congrArg (EStateM.Result.ok a) (s.set_push p q)

theorem run_edit_push_error (h : EStateM.run e p = .error f q) :
    EStateM.run (edit s.programs.length e) (s.push p) = .error f (s.push q) := by
  unfold edit
  rw [EStateM.run_bind, run_program (s.getElem?_push_length p)]
  simp only [h]
  exact congrArg (EStateM.Result.error f) (s.set_push p q)

/-- **A guard is closed again**: the program written before is written from then on. -/
theorem run_guarding {x : ShelfEdit α} (h : EStateM.run x { s with guarded := place } = .ok a s') :
    EStateM.run (guarding place x) s = .ok a { s' with guarded := s.guarded } := by
  have htry : EStateM.run (tryCatch x fun f => do guardWith s.guarded; throw f) { s with guarded := place } =
      .ok a s' := by
    change EStateM.run (EStateM.tryCatch x _) _ = _
    unfold EStateM.tryCatch
    unfold EStateM.run at h ⊢
    simp only [h]
  unfold guarding
  rw [EStateM.run_bind, EStateM.run_get]
  dsimp only
  rw [EStateM.run_bind]
  change EStateM.run _ { s with guarded := place } = _
  rw [EStateM.run_bind, htry]
  rfl

end ShelfEdit

/-! ## Scalings -/

/-- The variables that scalings write, from the `i`-th on. -/
def scaledFrom (i : Nat) (outputs : List Variable) : List Variable :=
  (outputs.zipIdx i).map fun e => Layer.scaledVar e.2 e.1

/-- **A program with outputs scaled by one**, from the `i`-th on: each scaling stands at the end and
writes a variable of its own. -/
def Program.scaled (p : Program) (i : Nat) (outputs : List Variable) : Program :=
  { p with global :=
      { vars := (scaledFrom i outputs).foldl declareIn p.global.vars
        ops := p.global.ops ++ (outputs.zipIdx i).map fun e => Layer.scaleOp e.2 e.1 } }

theorem run_scaleOutput (i : Nat) (v : Variable) (p : Program) :
    EStateM.run (Layer.scaleOutput i v) p = .ok () (p.scaled i [v]) := by
  dsimp only [Layer.scaleOutput, ProgramEdit.modifyGlobal, EStateM.run_modify]
  rw [Block.declare_eq]
  rfl

theorem Program.scaled_cons (p : Program) (i : Nat) (v : Variable) (rest : List Variable) :
    p.scaled i (v :: rest) = (p.scaled i [v]).scaled (i + 1) rest := by
  simp [scaled, scaledFrom, zipIdx_cons]

/-- **Scalings go into the program whose guard is open.** -/
theorem run_scaleOutputs {s : Shelf} (hs : s.guarded = s.programs.length) (outputs : List Variable) (i : Nat)
    (p : Program) : EStateM.run (Layer.scaleOutputs i outputs) (s.push p) =
      .ok (scaledFrom i outputs) (s.push (p.scaled i outputs)) := by
  induction outputs generalizing i p with
  | nil => simp [Layer.scaleOutputs, scaledFrom, Program.scaled]
  | cons v rest ih =>
    have hwrite : EStateM.run (ShelfEdit.write (Layer.scaleOutput i v)) (s.push p) =
        .ok () (s.push (p.scaled i [v])) := by
      change EStateM.run (ShelfEdit.edit s.guarded (Layer.scaleOutput i v)) (s.push p) = _
      rw [hs]
      exact ShelfEdit.run_edit_push (run_scaleOutput i v p)
    rw [Layer.scaleOutputs, EStateM.run_bind, hwrite]
    dsimp only
    rw [EStateM.run_bind, ih, ← p.scaled_cons]
    rfl

/-- **The variables that scalings write have names of their own**, whatever is scaled. -/
theorem nodup_scaledFrom (i : Nat) (outputs : List Variable) :
    ((scaledFrom i outputs).map Variable.name).Nodup := by
  have hnames : (scaledFrom i outputs).map Variable.name = ((outputs.zipIdx i).map Prod.snd).map
      fun k => "save_infer_model/scale_" ++ toString k ++ ".tmp_0" := by
    rw [scaledFrom, map_map, map_map]
    rfl
  rw [hnames, zipIdx_map_snd]
  refine List.Nodup.map (fun j k h => ?_) nodup_range'
  have hdigits := congrArg String.toList h
  simp only [String.toList_append, append_cancel_right_eq, append_cancel_left_eq] at hdigits
  exact toDigits_inj (by simpa using hdigits)

/-! ## The whole -/

theorem ProgramEdit.rebuildAfter_nothing (feeds fetches : List String) :
    rebuildAfter (return) feeds fetches = rebuild feeds fetches := rfl

theorem ProgramEdit.ok_of_run {e : ProgramEdit Unit} {p q : Program} (h : e.run p = .ok q) :
    EStateM.run e p = .ok () q := by
  unfold ProgramEdit.run at h
  split at h
  · rename_i hrun
    rw [hrun, Except.ok.inj h]
  · cases h

section Tracing

variable (prune : Layer.Pruning) {s : Shelf} {place : Nat} {p q : Program} {inputs : List String}
  {outputs : List Variable}

/-- Tracing up to the point where the interface is rebuilt. -/
theorem run_traceAt (hp : s.programs[place]? = some p) :
    EStateM.run (Layer.traceAt prune place inputs outputs) s =
      EStateM.run (do
        ShelfEdit.edit s.programs.length (ProgramEdit.rebuildAfter (prune inputs (scaledFrom 0 outputs)) inputs
          ((scaledFrom 0 outputs).map Variable.name))
        return (← ShelfEdit.program s.programs.length, scaledFrom 0 outputs))
        (s.push (p.scaled 0 outputs)) := by
  have hscale := run_scaleOutputs (s := { s with guarded := s.programs.length }) rfl outputs 0 p
  have hguard := ShelfEdit.run_guarding (s := s.push p) hscale
  rw [Layer.traceAt, EStateM.run_bind, ShelfEdit.run_clone hp]
  dsimp only
  rw [EStateM.run_bind, hguard]
  rfl

/-- **Tracing ends as rebuilding the scaled program does**, and gives that program back. -/
theorem run_traceAt_ok (hp : s.programs[place]? = some p)
    (h : EStateM.run (ProgramEdit.rebuildAfter (prune inputs (scaledFrom 0 outputs)) inputs
      ((scaledFrom 0 outputs).map Variable.name)) (p.scaled 0 outputs) = .ok () q) :
    EStateM.run (Layer.traceAt prune place inputs outputs) s = .ok (q, scaledFrom 0 outputs) (s.push q) := by
  rw [run_traceAt prune hp, EStateM.run_bind, ShelfEdit.run_edit_push h]
  dsimp only
  rw [EStateM.run_bind, ShelfEdit.run_program (s.getElem?_push_length q)]
  rfl

theorem run_traceAt_error (hp : s.programs[place]? = some p) {f : Fault}
    (h : EStateM.run (ProgramEdit.rebuildAfter (prune inputs (scaledFrom 0 outputs)) inputs
      ((scaledFrom 0 outputs).map Variable.name)) (p.scaled 0 outputs) = .error f q) :
    EStateM.run (Layer.traceAt prune place inputs outputs) s = .error f (s.push q) := by
  rw [run_traceAt prune hp, EStateM.run_bind, ShelfEdit.run_edit_push_error h]

end Tracing

/-- The program of a layer is traced without pruning. -/
theorem Layer.traced_eq {l : Layer} (h : l.traceable = true) :
    l.traced = ((ProgramEdit.rebuild l.inputs ((scaledFrom 0 (l.outputs.map l.outputVar)).map Variable.name)).run
      (l.program.scaled 0 (l.outputs.map l.outputVar))).map
        fun q => (q, scaledFrom 0 (l.outputs.map l.outputVar)) := by
  have hp : ({ programs := [l.program], guarded := 0 } : Shelf).programs[0]? = some l.program := rfl
  unfold Layer.traced ProgramEdit.run
  rw [if_pos h, ← ProgramEdit.rebuildAfter_nothing]
  cases hstatic : EStateM.run (ProgramEdit.rebuildAfter (return) l.inputs
      ((scaledFrom 0 (l.outputs.map l.outputVar)).map Variable.name))
      (l.program.scaled 0 (l.outputs.map l.outputVar)) with
  | ok u q =>
    simp only [run_traceAt_ok (fun _ _ => return) hp hstatic]
    rfl
  | error f q =>
    simp only [run_traceAt_error (fun _ _ => return) hp hstatic]
    rfl

namespace Program

variable (p : Program) (i : Nat) (outputs : List Variable)

theorem isSome_var?_scaled {x : String} (h : (p.global.var? x).isSome = true) :
    ((p.scaled i outputs).global.var? x).isSome = true := by
  induction outputs generalizing i p with
  | nil => simpa [scaled, scaledFrom] using h
  | cons v rest ih =>
    rw [p.scaled_cons]
    refine ih _ _ ?_
    have hdeclared := Block.isSome_var?_declare h (Layer.scaledVar i v)
    rw [Block.declare_eq] at hdeclared
    exact hdeclared

theorem inner_scaled : ((p.scaled i outputs).global.ops.filter fun op => !op.isInterface) =
    (p.global.ops.filter fun op => !op.isInterface) ++
      (outputs.zipIdx i).map fun e => Layer.scaleOp e.2 e.1 := by
  rw [scaled, filter_append]
  congr 1
  rw [filter_eq_self]
  intro op hop
  obtain ⟨e, -, rfl⟩ := mem_map.1 hop
  rfl

end Program

/-- **A layer is traced as its program with scaled outputs is rebuilt.**  Whatever programs there are and
whatever the host prunes, both end alike: with the same program, and outputs under names of their own,
or with the same fault.  The program that was traced stays as it is, and so does every other one and the
guard that is open.  Without pruning the operations are the feeds, those of the traced program that do
not belong to an interface, the scalings and the fetches. -/
theorem traced_as_rebuilt (prune : Layer.Pruning) (s : Shelf) (place : Nat) (p : Program)
    (hp : s.programs[place]? = some p) (inputs : List String) (outputs : List Variable) :
    let targets := scaledFrom 0 outputs
    let names := targets.map Variable.name
    let rebuilt := EStateM.run (ProgramEdit.rebuildAfter (prune inputs targets) inputs names)
      (p.scaled 0 outputs)
    (∀ q, rebuilt = .ok () q →
      EStateM.run (Layer.traceAt prune place inputs outputs) s = .ok (q, targets) (s.push q)) ∧
    (∀ f q, rebuilt = .error f q →
      EStateM.run (Layer.traceAt prune place inputs outputs) s = .error f (s.push q)) ∧
    names.Nodup ∧
    (∀ q, (s.push q).programs[place]? = some p ∧ (s.push q).guarded = s.guarded) ∧
    ∀ l : Layer, l.traceable = true → l.program = p → l.inputs = inputs → l.outputs.map l.outputVar = outputs →
      l.traced = ((ProgramEdit.rebuild inputs names).run (p.scaled 0 outputs)).map (fun q => (q, targets)) ∧
      ((∀ x ∈ inputs, (p.global.var? x).isSome = true) → ∃ q, l.traced = .ok (q, targets) ∧
        q.global.ops = (inputs.mapIdx fun i x => feedOp "feed" i x).reverse ++
          (p.global.ops.filter fun op => !op.isInterface) ++ (outputs.mapIdx Layer.scaleOp) ++
          (names.mapIdx fun i x => fetchOp "fetch" i x)) := by
  intro targets names rebuilt
  refine ⟨fun q => run_traceAt_ok prune hp, fun f q => run_traceAt_error prune hp, nodup_scaledFrom 0 outputs,
    fun q => ⟨s.getElem?_push hp q, rfl⟩, ?_⟩
  rintro l htraceable rfl rfl rfl
  refine ⟨Layer.traced_eq htraceable, fun hinputs => ?_⟩
  obtain ⟨q, hq, hops⟩ := ProgramEdit.run_rebuild names
    (p := l.program.scaled 0 (l.outputs.map l.outputVar)) fun x hx =>
      l.program.isSome_var?_scaled 0 _ (hinputs x hx)
  refine ⟨q, by rw [Layer.traced_eq htraceable, hq]; rfl, ?_⟩
  have hscalings : (l.outputs.map l.outputVar).mapIdx Layer.scaleOp = _ := List.mapIdx_eq_zipIdx_map
  rw [hops, Program.inner_scaled, feedsFrom_zero, hscalings]
  simp only [List.append_assoc]
  rfl

/-- A layer that is traced to a program with an interface of its own, and gives back one variable twice. -/
def Layer.repeating : Layer :=
  { loaded := false, program := Program.interleaved, inputs := ["x", "z"], outputs := ["y", "z", "y"] }

/-- **An output that is given back twice** is scaled twice and fetched under two names; the program that
was traced, another one beside it and the guard that is open are left alone. -/
theorem traced_as_rebuilt_repeating :
    let outputs := Layer.repeating.outputs.map Layer.repeating.outputVar
    let s : Shelf := { programs := [{ global := { vars := [], ops := [] } }, Program.interleaved], guarded := 0 }
    s.programs[1]? = some Program.interleaved ∧
      ((scaledFrom 0 outputs).map Variable.name).Nodup ∧
      ∃ q s', EStateM.run (Layer.traceAt (fun _ _ => return) 1 ["x", "z"] outputs) s =
          .ok (q, scaledFrom 0 outputs) s' ∧
        s'.programs[1]? = some Program.interleaved ∧ s'.guarded = 0 ∧
        Layer.repeating.traced = .ok (q, scaledFrom 0 outputs) ∧
        q.global.ops.map Operation.type =
          ["feed", "feed", "relu", "tanh", "scale", "scale", "scale", "fetch", "fetch", "fetch"] := by
  intro outputs s
  have hp : s.programs[1]? = some Program.interleaved := rfl
  obtain ⟨hok, -, hnames, hkept, hlayer⟩ :=
    traced_as_rebuilt (fun _ _ => return) s 1 Program.interleaved hp ["x", "z"] outputs
  obtain ⟨htraced, hops⟩ := hlayer Layer.repeating rfl rfl rfl rfl
  obtain ⟨q, hq, hops⟩ := hops (by decide)
  refine ⟨hp, hnames, q, s.push q, hok q ?_, (hkept q).1, (hkept q).2, hq, ?_⟩
  · rw [hq] at htraced
    cases hrun : (ProgramEdit.rebuild ["x", "z"] ((scaledFrom 0 outputs).map Variable.name)).run
        (Program.interleaved.scaled 0 outputs) with
    | error f => rw [hrun] at htraced; cases htraced
    | ok q' =>
      rw [hrun] at htraced
      obtain rfl := (Prod.mk.inj (Except.ok.inj htraced)).1
      exact ProgramEdit.ok_of_run hrun
  · rw [hops]
    decide

end ModelExport
