import ModelExport.Support
import ModelExport.Proofs.Emission.Growth

/-!
# Proofs/Support/Check — what the support check accepts

A type is supported when it is composite or has a rule up to the version (`Registry.Supports`).  The
check lets exactly lists of supported types pass (`succeeds_checkSupport_iff`), provided that versions
are not negative (`Registry.WellNumbered`): `-1` stands for no version.  When it only advises it gives
the least version at which it would pass (`isLeast_advised`).
-/

namespace ModelExport

open List

def Emit.Succeeds {α : Type} (x : Emit α) (d : Draft) : Prop := ∃ a d', EStateM.run x d = .ok a d'

theorem mem_distinct {t : String} (types : List String) : t ∈ distinct types ↔ t ∈ types := by
  have hfold : ∀ (ts seen : List String),
      t ∈ ts.foldl (fun seen t => if seen.contains t then seen else seen ++ [t]) seen ↔
        t ∈ seen ∨ t ∈ ts := by
    intro ts
    induction ts with
    | nil => simp
    | cons u ts ih =>
      intro seen
      rw [foldl_cons, ih]
      by_cases hu : u ∈ seen
      · have hmem : t = u → t ∈ seen := fun h => h ▸ hu
        simp only [contains_iff_mem, hu, if_true, mem_cons]
        tauto
      · simp only [contains_iff_mem, hu, if_false, mem_append, mem_cons,
          not_mem_nil, or_false]
        tauto
  exact (hfold types []).trans (or_iff_right not_mem_nil)

theorem distinct_eq_nil_iff (types : List String) : distinct types = [] ↔ types = [] := by
  simp only [eq_nil_iff_forall_not_mem, mem_distinct]

/-! ## The latest version up to a bound -/

/-- The last of the versions up to a bound, or the one that was known before. -/
theorem foldl_upTo_cases (bound : Int) : ∀ (vs : List Int) (best : Int),
    let last := vs.foldl (fun best v => if v ≤ bound then v else best) best
    (last = best ∧ ∀ v ∈ vs, bound < v) ∨ last ∈ vs ∧ last ≤ bound
  | [], _ => Or.inl ⟨rfl, fun _ hv => absurd hv not_mem_nil⟩
  | v :: vs, best => by
      intro last
      rcases foldl_upTo_cases bound vs (if v ≤ bound then v else best) with ⟨hlast, hnone⟩ | ⟨hmem, hle⟩
      · by_cases hv : v ≤ bound
        · refine Or.inr ⟨?_, ?_⟩ <;> rw [show last = v from hlast.trans (if_pos hv)]
          · exact mem_cons_self
          · exact hv
        · exact Or.inl ⟨hlast.trans (if_neg hv), forall_mem_cons.2 ⟨Int.not_le.1 hv, hnone⟩⟩
      · exact Or.inr ⟨mem_cons_of_mem _ hmem, hle⟩

theorem latestUpTo_cases (vs : List Int) (bound : Int) :
    (latestUpTo vs bound = -1 ∧ ∀ v ∈ vs, bound < v) ∨
      latestUpTo vs bound ∈ vs ∧ latestUpTo vs bound ≤ bound := by
  have hcases := foldl_upTo_cases bound (vs.mergeSort fun a b => a ≤ b) (-1)
  simp only [mem_mergeSort] at hcases
  exact hcases

namespace Registry

variable (r : Registry)

/-- **A type has a rule up to a version.** -/
def HasRule (t : String) (w : Int) : Prop := ∃ vs ∈ r.versions (.str t), ∃ v ∈ vs, v ≤ w

/-- **A type can be mapped at a version**: it is composite, or has a rule up to it. -/
def Supports (w : Int) (t : String) : Prop := r.isComposite t = true ∨ r.HasRule t w

/-- Composite, or registered with whatever version. -/
def Knows (t : String) : Prop := r.isComposite t = true ∨ (r.versions (.str t)).isSome = true

/-- The rules of a type, if it has a table of them, are under versions that are not negative. -/
def WellNumbered (t : String) : Prop :=
  ∀ vs ∈ r.versions (.str t), vs ≠ [] ∧ ∀ v ∈ vs, 0 ≤ v

instance (t : String) : Decidable (r.Knows t) := inferInstanceAs (Decidable (_ ∨ _))

instance (t : String) : Decidable (r.WellNumbered t) :=
  inferInstanceAs (Decidable (∀ vs ∈ r.versions (.str t), vs ≠ [] ∧ ∀ v ∈ vs, 0 ≤ v))

variable {r} {t : String} {types : List String} {v w : Int}

theorem Supports.mono (h : r.Supports v t) (hvw : v ≤ w) : r.Supports w t :=
  h.imp_right fun ⟨vs, hvs, u, hu, huv⟩ => ⟨vs, hvs, u, hu, Int.le_trans huv hvw⟩

theorem Supports.knows (h : r.Supports v t) : r.Knows t :=
  h.imp_right fun ⟨vs, hvs, _⟩ => by rw [hvs]; rfl

theorem supports_of_lacksVersion (hknows : r.Knows t) (h : r.lacksVersion w t = false) :
    r.Supports w t := by
  rcases hknows with hcomposite | hregistered
  · exact Or.inl hcomposite
  · obtain ⟨vs, hvs⟩ := Option.isSome_iff_exists.1 hregistered
    by_cases hcomposite : r.isComposite t = true
    · exact Or.inl hcomposite
    · rcases latestUpTo_cases vs w with ⟨hnone, -⟩ | ⟨hmem, hle⟩
      · simp [lacksVersion, hvs, hcomposite, hnone] at h
      · exact Or.inr ⟨vs, hvs, _, hmem, hle⟩

theorem lacksVersion_iff (hnumbers : r.WellNumbered t) (hknows : r.Knows t) :
    r.lacksVersion w t = true ↔ ¬ r.Supports w t := by
  constructor
  · intro h hsupports
    unfold lacksVersion at h
    split at h
    · exact absurd h Bool.false_ne_true
    · rename_i vs hvs
      obtain ⟨hcomposite, hlatest⟩ := Bool.and_eq_true_iff.1 h
      obtain ⟨vs', hvs', u, hu, huw⟩ := hsupports.resolve_left (by simpa using hcomposite)
      obtain rfl : vs = vs' := Option.some.inj (hvs.symm.trans hvs')
      have hnonneg := (hnumbers vs hvs).2
      rcases latestUpTo_cases vs w with ⟨-, hnone⟩ | ⟨hmem, -⟩
      · exact absurd (hnone u hu) (Int.not_lt.2 huw)
      · have := hnonneg _ hmem
        rw [eq_of_beq hlatest] at this
        omega
  · intro h
    by_contra hlacks
    exact h (supports_of_lacksVersion hknows (by simpa using hlacks))

theorem unregistered_eq_nil_iff : r.unregistered types = [] ↔ ∀ t ∈ types, r.Knows t := by
  rw [unregistered, distinct_eq_nil_iff, filter_eq_nil_iff]
  refine forall₂_congr fun t _ => ?_
  rw [Knows, Bool.and_eq_true_iff]
  cases r.isComposite t <;> simp [Option.isSome_iff_ne_none]

theorem mem_unsupported : t ∈ r.unsupported w types ↔ t ∈ types ∧ r.lacksVersion w t = true := by
  rw [unsupported, mem_distinct, mem_filter]

/-! ## The first version -/

theorem firstVersion_le_iff (hnumbers : r.WellNumbered t) (hcomposite : r.isComposite t = false)
    (hregistered : (r.versions (.str t)).isSome = true) :
    r.firstVersion t ≤ w ↔ r.Supports w t := by
  obtain ⟨vs, hvs⟩ := Option.isSome_iff_exists.1 hregistered
  obtain ⟨hne, -⟩ := hnumbers vs hvs
  obtain ⟨a, ha⟩ := Option.isSome_iff_exists.1 (isSome_min?_of_ne_nil hne)
  have hfirst : r.firstVersion t = a := by simp [firstVersion, hvs, ha]
  obtain ⟨hmem, hleast⟩ := min?_eq_some_iff.1 ha
  rw [hfirst]
  constructor
  · exact fun h => Or.inr ⟨vs, hvs, a, hmem, h⟩
  · rintro (h | ⟨vs', hvs', u, hu, huw⟩)
    · exact absurd h (by simp [hcomposite])
    · obtain rfl : vs = vs' := Option.some.inj (hvs.symm.trans hvs')
      exact Int.le_trans (hleast u hu) huw

theorem neededVersion_le_iff (types : List String) :
    r.neededVersion types ≤ w ↔ -1 ≤ w ∧ ∀ t ∈ types, r.firstVersion t ≤ w := by
  have hfold : ∀ (ts : List String) (best : Int),
      ts.foldl (fun best t => max best (r.firstVersion t)) best ≤ w ↔
        best ≤ w ∧ ∀ t ∈ ts, r.firstVersion t ≤ w := by
    intro ts
    induction ts with
    | nil => simp
    | cons u ts ih =>
      intro best
      rw [foldl_cons, ih, Int.max_le, forall_mem_cons, and_assoc]
  exact hfold types (-1)

/-! ## The version that the check advises -/

/-- The version that the check gives back when it only advises. -/
def advised (r : Registry) (types : List String) (v : Int) : Int :=
  if r.unsupported v types = [] then v else r.neededVersion (r.unsupported v types)

/-- **The check advises the least version** from the requested one on that supports every type. -/
theorem isLeast_advised (hnumbers : ∀ t ∈ types, r.WellNumbered t) (hknows : ∀ t ∈ types, r.Knows t)
    (v : Int) : IsLeast {w | v ≤ w ∧ ∀ t ∈ types, r.Supports w t} (r.advised types v) := by
  have hlacks : ∀ t ∈ types, (r.lacksVersion v t = true ↔ ¬ r.Supports v t) :=
    fun t ht => lacksVersion_iff (hnumbers t ht) (hknows t ht)
  unfold advised
  split
  · rename_i hnone
    refine ⟨⟨Int.le_refl v, fun t ht => ?_⟩, fun w hw => hw.1⟩
    by_contra h
    have : t ∈ r.unsupported v types := mem_unsupported.2 ⟨ht, (hlacks t ht).2 h⟩
    rw [hnone] at this
    exact absurd this not_mem_nil
  · rename_i hsome
    -- a type that lacks a version has a first one, and that is beyond the requested one
    have hfirst : ∀ t ∈ r.unsupported v types, ∀ w, r.firstVersion t ≤ w ↔ r.Supports w t := by
      intro t ht w
      obtain ⟨ht, hlack⟩ := mem_unsupported.1 ht
      have hno : ¬ r.isComposite t = true := fun h => (hlacks t ht).1 hlack (Or.inl h)
      exact firstVersion_le_iff (hnumbers t ht) (by simpa using hno) ((hknows t ht).resolve_left hno)
    have hbeyond : ∀ w, (∀ t ∈ r.unsupported v types, r.Supports w t) → v < w ∧ 0 ≤ w := by
      intro w hw
      obtain ⟨t, ht⟩ := exists_mem_of_ne_nil _ hsome
      have hlack := (hlacks t (mem_unsupported.1 ht).1).1 (mem_unsupported.1 ht).2
      obtain ⟨vs, hvs, u, hu, huw⟩ := (hw t ht).resolve_left fun h => hlack (Or.inl h)
      have hu0 := (hnumbers t (mem_unsupported.1 ht).1 vs hvs).2 u hu
      have hvu : v < u := Int.not_le.1 fun h => hlack (Or.inr ⟨vs, hvs, u, hu, h⟩)
      omega
    have hneeded : ∀ w, r.neededVersion (r.unsupported v types) ≤ w ↔
        v ≤ w ∧ ∀ t ∈ types, r.Supports w t := by
      intro w
      rw [neededVersion_le_iff]
      constructor
      · rintro ⟨-, hall⟩
        have hunsupported : ∀ t ∈ r.unsupported v types, r.Supports w t :=
          fun t ht => (hfirst t ht w).1 (hall t ht)
        have hvw := Int.le_of_lt (hbeyond w hunsupported).1
        refine ⟨hvw, fun t ht => ?_⟩
        by_cases hlack : r.lacksVersion v t = true
        · exact hunsupported t (mem_unsupported.2 ⟨ht, hlack⟩)
        · exact Supports.mono (not_not.1 (mt (hlacks t ht).2 hlack)) hvw
      · rintro ⟨-, hall⟩
        have hunsupported : ∀ t ∈ r.unsupported v types, r.Supports w t :=
          fun t ht => hall t (mem_unsupported.1 ht).1
        have := (hbeyond w hunsupported).2
        exact ⟨by omega, fun t ht => (hfirst t ht w).2 (hunsupported t ht)⟩
    exact ⟨(hneeded _).1 (Int.le_refl _), fun w hw => (hneeded w).2 hw⟩

end Registry

/-! ## Runs of the check -/

namespace Emit

variable {r : Registry} {types : List String} {v w : Int} {d : Draft}

theorem run_checkSupport_of_unknown (h : ¬ ∀ t ∈ types, r.Knows t) (advise : Bool) :
    EStateM.run (checkSupport r types v advise) d =
      .error (.refusal (.unregistered (r.unregistered types))) d := by
  have hne : (r.unregistered types).isEmpty = false := by
    rw [isEmpty_eq_false_iff]
    exact mt Registry.unregistered_eq_nil_iff.1 h
  simp only [checkSupport, hne]
  rfl

theorem run_checkSupport_of_known (h : ∀ t ∈ types, r.Knows t) (advise : Bool) :
    EStateM.run (checkSupport r types v advise) d =
      if r.unsupported v types = [] then .ok v d
      else
        let reason := Refusal.unsupportedVersion (r.unsupported v types) v
          (r.neededVersion (r.unsupported v types))
        if advise then .ok (r.neededVersion (r.unsupported v types))
          { d with notices := d.notices ++ [.warning reason.message] }
        else .error (.refusal reason) d := by
  have hnil : r.unregistered types = [] := Registry.unregistered_eq_nil_iff.2 h
  by_cases hlacking : r.unsupported v types = []
  · simp only [checkSupport, hnil, hlacking, isEmpty_nil, if_true]
    rfl
  · have hne : (r.unsupported v types).isEmpty = false := isEmpty_eq_false_iff.2 hlacking
    cases advise
    · simp only [checkSupport, hnil, hlacking, hne, isEmpty_nil, if_false]
      rfl
    · simp only [checkSupport, hnil, hlacking, hne, isEmpty_nil, if_false]
      rfl

theorem checkSupport_ok {d' : Draft} (h : EStateM.run (checkSupport r types v false) d = .ok w d') :
    d' = d ∧ ∀ t ∈ types, r.Supports v t := by
  by_cases hknows : ∀ t ∈ types, r.Knows t
  · rw [run_checkSupport_of_known hknows] at h
    split at h
    · rename_i hnone
      refine ⟨(EStateM.Result.ok.inj h).2.symm, fun t ht => ?_⟩
      refine Registry.supports_of_lacksVersion (hknows t ht) ?_
      rw [← Bool.not_eq_true]
      intro hlack
      have : t ∈ r.unsupported v types := Registry.mem_unsupported.2 ⟨ht, hlack⟩
      rw [hnone] at this
      exact absurd this not_mem_nil
    · cases h
  · rw [run_checkSupport_of_unknown hknows] at h
    cases h

/-- **The check passes exactly when every type is supported.** -/
theorem succeeds_checkSupport_iff (hnumbers : ∀ t ∈ types, r.WellNumbered t) :
    Succeeds (checkSupport r types v false) d ↔ ∀ t ∈ types, r.Supports v t := by
  constructor
  · rintro ⟨w, d', h⟩
    exact (checkSupport_ok h).2
  · intro hall
    have hknows : ∀ t ∈ types, r.Knows t := fun t ht => (hall t ht).knows
    have hnone : r.unsupported v types = [] := by
      refine eq_nil_iff_forall_not_mem.2 fun t ht => ?_
      obtain ⟨ht, hlack⟩ := Registry.mem_unsupported.1 ht
      exact (Registry.lacksVersion_iff (hnumbers t ht) (hknows t ht)).1 hlack (hall t ht)
    exact ⟨v, d, by rw [run_checkSupport_of_known hknows, if_pos hnone]⟩

theorem checkSupport_advise (h : ∀ t ∈ types, r.Knows t) (v : Int) (d : Draft) :
    ∃ d', EStateM.run (checkSupport r types v true) d = .ok (r.advised types v) d' := by
  rw [run_checkSupport_of_known h, Registry.advised]
  split
  · exact ⟨d, rfl⟩
  · exact ⟨_, rfl⟩

end Emit

end ModelExport
