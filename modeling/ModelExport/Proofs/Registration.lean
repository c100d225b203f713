import Mathlib.Data.Int.Order.Basic
import Mathlib.Data.List.Sort
import ModelExport.Proofs.Support.Check

/-!
# Proofs/Registration — what a registration changes

    old     1 ····· 7 ················ 11
    new     ······· 7 ······ 9 ·········
    both    1 ───── 7′ ───── 9′ ────── 11

A registration is checked before anything is written (`run_register_of_not_registrable`), and what it
writes goes into the tables of its types, version by version (`run_putMethods`).  The rule of an
operator set is read off such a table at the latest version (`ruleFor_of_isGreatest`), so of two tables
merged the later version is used, and for one version the rule that came last (`register_all_or_nothing`).
-/

namespace ModelExport

open List
open EStateM (run)

/-! ## The rule of a version -/

/-- The rule that is registered for a type and a version. -/
def Registry.rule? (r : Registry) (t : String) (w : Int) : Option Rule :=
  (((r.rulesOf (.str t)).getD []).find? fun e => e.1 == w).map Prod.snd

def isForVersion (w : Int) (method : String) : Bool :=
  match methodVersion method with
  | some (.ok v) => v == w
  | _ => false

/-- The rule that methods offer for a version: of several the last. -/
def offered? (methods : List (String × Rule)) (w : Int) : Option Rule :=
  (methods.reverse.find? fun m => isForVersion w m.1).map Prod.snd

/-- The versions up to a bound that have a rule. -/
def upTo (table : Int → Option Rule) (v : Int) : Set Int := {w | (table w).isSome ∧ w ≤ v}

/-- **Methods that can be registered**: some are for a version, and those have versions from 1 to 13. -/
structure Registrable (methods : List (String × Rule)) : Prop where
  some_version : ∃ m ∈ methods, (methodVersion m.1).isSome
  in_range : ∀ m ∈ methods, ∀ x, methodVersion m.1 = some x → ∃ n : Int, x = .ok n ∧ 1 ≤ n ∧ n ≤ 13

/-! ## The latest version -/

theorem le_foldl_upTo {bound : Int} : ∀ {vs : List Int} {best : Int}, vs.Pairwise (· ≤ ·) →
    ∀ w ∈ vs, w ≤ bound → w ≤ vs.foldl (fun best v => if v ≤ bound then v else best) best
  | v :: vs, best, hsorted, w, hw, hle => by
      rw [foldl_cons]
      obtain ⟨hfirst, hrest⟩ := pairwise_cons.1 hsorted
      rcases mem_cons.1 hw with rfl | hw
      · rw [if_pos hle]
        rcases foldl_upTo_cases bound vs w with ⟨hlast, -⟩ | ⟨hmem, -⟩
        · exact hlast.ge
        · exact hfirst _ hmem
      · exact le_foldl_upTo hrest w hw hle

theorem le_latestUpTo {vs : List Int} {bound w : Int} (hw : w ∈ vs) (hle : w ≤ bound) :
    w ≤ latestUpTo vs bound := by
  refine le_foldl_upTo ?_ w (mem_mergeSort.2 hw) hle
  exact pairwise_mergeSort' (fun a b : Int => a ≤ b) vs

/-! ## Tables where an entry is replaced or added -/

section Table

variable {α : Type} {p q : α → Bool} {f : α → α} {new : α} {l : List α}

theorem find?_replaced_self (hf : ∀ e, q e = true → q (f e) = true) (hnew : q new = true) :
    (if l.any q then l.map fun e => if q e then f e else e else l ++ [new]).find? q =
      some (((l.find? q).map f).getD new) := by
  have hkeys : (q ∘ fun e => if q e then f e else e) = q := by
    funext e
    by_cases he : q e = true <;> simp [he, hf]
  by_cases hany : l.any q = true
  · obtain ⟨e, he⟩ := Option.isSome_iff_exists.1 (find?_isSome.2 (any_eq_true.1 hany))
    rw [if_pos hany, find?_map, hkeys, he, Option.map_some, if_pos (find?_some he)]
    rfl
  · have hnone : l.find? q = none := by
      rw [find?_eq_none]
      exact fun e he hq => hany (any_eq_true.2 ⟨e, he, hq⟩)
    simp [hany, hnone, hnew]

theorem find?_replaced_other (hpq : ∀ e, p e = true → q e = false) (hf : ∀ e, q e = true → p (f e) = false)
    (hnew : p new = false) :
    (if l.any q then l.map fun e => if q e then f e else e else l ++ [new]).find? p = l.find? p := by
  have hkeys : (p ∘ fun e => if q e then f e else e) = p := by
    funext e
    by_cases he : q e = true
    · have hpe : p e = false := Bool.eq_false_iff.2 fun h => by simp [hpq e h] at he
      simp [he, hf, hpe]
    · simp [he]
  split
  · rw [find?_map, hkeys]
    refine (Option.map_congr fun e he => ?_).trans Option.map_id'
    rw [if_neg (by simp [hpq e (find?_some he)])]
  · simp [find?_append, hnew]

end Table

namespace Registry

variable {r : Registry} {t : String} {v w : Int} {rule : Rule}

theorem rule?_eq_some_mem {rules : List (Int × Rule)} (hrules : r.rulesOf (.str t) = some rules) :
    (r.rule? t w).isSome ↔ w ∈ rules.map Prod.fst := by
  rw [rule?, hrules, Option.getD_some, Option.isSome_map, find?_isSome]
  simp

/-- **The rule of an operator set is that of the latest version.** -/
theorem ruleFor_of_isGreatest (h : IsGreatest (upTo (r.rule? t) v) w) (hrule : r.rule? t w = some rule) :
    r.ruleFor t v = .ok rule := by
  cases hrules : r.rulesOf (.str t) with
  | none => simp [rule?, hrules] at hrule
  | some rules =>
    obtain ⟨⟨hsome, hle⟩, hmax⟩ := h
    have hw : w ∈ rules.map Prod.fst := (rule?_eq_some_mem hrules).1 hsome
    have hlatest : latestUpTo (rules.map Prod.fst) v = w := by
      rcases latestUpTo_cases (rules.map Prod.fst) v with ⟨-, hnone⟩ | ⟨hmem, hupTo⟩
      · exact absurd hle (Int.not_le.2 (hnone w hw))
      · exact Int.le_antisymm (hmax ⟨(rule?_eq_some_mem hrules).2 hmem, hupTo⟩) (le_latestUpTo hw hle)
    rw [rule?, hrules, Option.getD_some] at hrule
    obtain ⟨e, he, rfl⟩ := Option.map_eq_some_iff.1 hrule
    simp only [ruleFor, hrules, hlatest, he]

/-- Where there is no version, what is asked for is version `-1`. -/
theorem ruleFor_of_upTo_eq_empty (h : upTo (r.rule? t) v = ∅) :
    r.ruleFor t v = (r.rule? t (-1)).elim (.error .missingKey) .ok := by
  cases hrules : r.rulesOf (.str t) with
  | none => simp [ruleFor, rule?, hrules]
  | some rules =>
    have hlatest : latestUpTo (rules.map Prod.fst) v = -1 := by
      rcases latestUpTo_cases (rules.map Prod.fst) v with ⟨hnone, -⟩ | ⟨hmem, hupTo⟩
      · exact hnone
      · have hin : latestUpTo (rules.map Prod.fst) v ∈ upTo (r.rule? t) v :=
          ⟨(rule?_eq_some_mem hrules).2 hmem, hupTo⟩
        rw [h] at hin
        exact absurd hin (Set.notMem_empty _)
    simp only [ruleFor, rule?, hrules, hlatest, Option.getD_some]
    cases rules.find? fun e => e.1 == -1 <;> rfl

/-! ## One rule -/

theorem find?_putVersion (rules : List (Int × Rule)) :
    ((putVersion rules v rule).find? fun e => e.1 == w).map Prod.snd =
      if w = v then some rule else (rules.find? fun e => e.1 == w).map Prod.snd := by
  unfold putVersion
  by_cases hw : w = v
  · subst hw
    rw [if_pos rfl, find?_replaced_self]
    · cases rules.find? fun e => e.1 == w <;> rfl
    · exact fun _ _ => beq_self_eq_true w
    · exact beq_self_eq_true w
  · rw [if_neg hw, find?_replaced_other]
    · exact fun e he => by simpa [eq_of_beq he] using hw
    · exact fun _ _ => by simpa using Ne.symm hw
    · simpa using Ne.symm hw

/-- **A new rule goes into the table of its type**, and other tables stay. -/
theorem rulesOf_put (r : Registry) (s t : String) (v : Int) (rule : Rule) :
    (r.put (.str s) v rule).rulesOf (.str t) =
      if t = s then some (putVersion ((r.rulesOf (.str s)).getD []) v rule) else r.rulesOf (.str t) := by
  have hrules : (r.put (.str s) v rule).rules =
      if r.rules.any fun e => e.1.same (.str s) then
        r.rules.map fun e => if e.1.same (.str s) then (e.1, putVersion e.2 v rule) else e
      else r.rules ++ [(.str s, [(v, rule)])] := by
    rw [put]
    split <;> rfl
  rw [rulesOf, hrules]
  by_cases ht : t = s
  · subst ht
    rw [if_pos rfl, find?_replaced_self, rulesOf]
    · cases r.rules.find? fun e => e.1.same (.str t) <;> rfl
    · exact fun _ he => he
    · exact (same_str_right _ _).2 rfl
  · rw [if_neg ht, find?_replaced_other, rulesOf]
    · exact fun e he => by simpa [(same_str_right _ _).1 he] using ht
    · exact fun e he => by simpa [(same_str_right _ _).1 he] using Ne.symm ht
    · simpa using Ne.symm ht

theorem rule?_put (s t : String) (u : Int) :
    (r.put (.str s) v rule).rule? t u = if t = s ∧ v = u then some rule else r.rule? t u := by
  rw [rule?, rulesOf_put]
  by_cases hs : t = s
  · subst hs
    rw [if_pos rfl, Option.getD_some, find?_putVersion]
    simp only [true_and, eq_comm]
    rfl
  · simp [hs, rule?]

/-- **A registry with a table of rules merged into those of some types**: where both have a rule for a
version, the new one counts. -/
structure Merges (r : Registry) (names : List String) (table : Int → Option Rule) (r' : Registry) :
    Prop where
  other : ∀ t, t ∉ names → r'.rulesOf (.str t) = r.rulesOf (.str t)
  merged : ∀ t ∈ names, ∀ w, r'.rule? t w = (table w).or (r.rule? t w)

namespace Merges

variable {r₁ r₂ r' : Registry} {names : List String} {a b table : Int → Option Rule}

theorem trans (h₁ : r.Merges names a r₁) (h₂ : r₁.Merges names b r₂) :
    r.Merges names (fun w => (b w).or (a w)) r₂ where
  other t ht := (h₂.other t ht).trans (h₁.other t ht)
  merged t ht w := by rw [h₂.merged t ht, h₁.merged t ht, Option.or_assoc]

theorem ruleFor_other (h : r.Merges names table r') (ht : t ∉ names) (v : Int) :
    r'.ruleFor t v = r.ruleFor t v := by rw [ruleFor, ruleFor, h.other t ht]

theorem upTo_eq (h : r.Merges names table r') (ht : t ∈ names) (v : Int) :
    upTo (r'.rule? t) v = upTo table v ∪ upTo (r.rule? t) v := by
  ext w
  rw [upTo, Set.mem_ofPred_eq, h.merged t ht w, Option.isSome_or, Bool.or_eq_true]
  exact or_and_right

/-- The new rule is used when its version is at least the old one. -/
theorem ruleFor_new (h : r.Merges names table r') (ht : t ∈ names) {n : Int}
    (hn : IsGreatest (upTo table v) n) (hold : ∀ o ∈ upTo (r.rule? t) v, o ≤ n) :
    ∃ rule, table n = some rule ∧ r'.ruleFor t v = .ok rule := by
  obtain ⟨rule, hrule⟩ := Option.isSome_iff_exists.1 hn.1.1
  refine ⟨rule, hrule, ruleFor_of_isGreatest (w := n) ?_ ?_⟩
  · rw [h.upTo_eq ht]
    exact ⟨Or.inl hn.1, fun w hw => hw.elim (fun hw => hn.2 hw) (hold w)⟩
  · rw [h.merged t ht, hrule, Option.some_or]

/-- The old rule is used when its version is later than the new ones. -/
theorem ruleFor_old (h : r.Merges names table r') (ht : t ∈ names) {o : Int}
    (ho : IsGreatest (upTo (r.rule? t) v) o) (hnew : ∀ n ∈ upTo table v, n < o) :
    ∃ rule, r.rule? t o = some rule ∧ r'.ruleFor t v = .ok rule := by
  obtain ⟨rule, hrule⟩ := Option.isSome_iff_exists.1 ho.1.1
  have hnone : table o = none := by
    by_contra hsome
    exact lt_irrefl o (hnew o ⟨Option.isSome_iff_ne_none.2 hsome, ho.1.2⟩)
  refine ⟨rule, hrule, ruleFor_of_isGreatest (w := o) ?_ ?_⟩
  · rw [h.upTo_eq ht]
    exact ⟨Or.inr ho.1, fun w hw => hw.elim (fun hw => (hnew w hw).le) (fun hw => ho.2 hw)⟩
  · rw [h.merged t ht, hnone, Option.none_or, hrule]

end Merges

end Registry

/-! ## Methods -/

theorem offered?_cons (method : String) (rule : Rule) (rest : List (String × Rule)) (w : Int) :
    offered? ((method, rule) :: rest) w =
      (offered? rest w).or (if isForVersion w method then some rule else none) := by
  rw [offered?, reverse_cons, find?_append, offered?]
  cases rest.reverse.find? fun m => isForVersion w m.1 with
  | some m => rfl
  | none => by_cases hw : isForVersion w method = true <;> simp [hw]

namespace Registration

theorem run_putAll (v : Int) (rule : Rule) : ∀ (names : List String) (r : Registry),
    ∃ r', run (putAll v rule (names.map .str)) r = .ok () r' ∧
      r.Merges names (fun w => if v == w then some rule else none) r'
  | [], r => ⟨r, rfl, fun _ _ => rfl, fun _ ht => absurd ht not_mem_nil⟩
  | s :: names, r => by
      obtain ⟨r', hrun, hmerges⟩ := run_putAll v rule names (r.put (.str s) v rule)
      refine ⟨r', hrun, fun t ht => ?_, fun t ht w => ?_⟩
      · rw [mem_cons, not_or] at ht
        rw [hmerges.other t ht.2, Registry.rulesOf_put, if_neg ht.1]
      · by_cases hlater : t ∈ names
        · rw [hmerges.merged t hlater, Registry.rule?_put]
          by_cases hw : v = w <;> simp [hw]
        · obtain rfl := (mem_cons.1 ht).resolve_right hlater
          rw [Registry.rule?, hmerges.other t hlater, ← Registry.rule?, Registry.rule?_put]
          by_cases hw : v = w <;> simp [hw]

/-- Methods put one after another. -/
theorem run_putMethods (names : List String) : ∀ (methods : List (String × Rule)) (r : Registry),
    (∀ m ∈ methods, ∀ x, methodVersion m.1 = some x → ∃ n, x = .ok n) →
    ∃ r', run (putMethods (names.map .str) methods) r = .ok () r' ∧
      r.Merges names (offered? methods) r'
  | [], r, _ => ⟨r, rfl, fun _ _ => rfl, fun _ _ _ => rfl⟩
  | (method, rule) :: rest, r, hnumbers => by
      have hrest := fun m hm => hnumbers m (mem_cons_of_mem _ hm)
      rw [putMethods, funext (offered?_cons method rule rest)]
      cases hversion : methodVersion method with
      | none =>
        obtain ⟨r', hrun, hmerges⟩ := run_putMethods names rest r hrest
        refine ⟨r', hrun, ?_⟩
        simpa [isForVersion, hversion] using hmerges
      | some x =>
        obtain ⟨n, rfl⟩ := hnumbers (method, rule) mem_cons_self x hversion
        obtain ⟨r₁, hrun₁, hmerges₁⟩ := run_putAll n rule names r
        obtain ⟨r₂, hrun₂, hmerges₂⟩ := run_putMethods names rest r₁ hrest
        refine ⟨r₂, ?_, ?_⟩
        · exact (EStateM.run_bind ..).trans (by rw [hrun₁]; exact hrun₂)
        · have hfor : ∀ w, isForVersion w method = (n == w) := fun w => by rw [isForVersion, hversion]
          simpa only [hfor] using hmerges₁.trans hmerges₂

end Registration

theorem countVersions_cons (method : String) (rule : Rule) (rest : List (String × Rule)) (k : Nat) :
    countVersions ((method, rule) :: rest) = .ok k ↔
      (methodVersion method = none ∧ countVersions rest = .ok k) ∨
      ∃ (n : Int) (j : Nat), methodVersion method = some (.ok n) ∧ 1 ≤ n ∧ n ≤ 13 ∧
        countVersions rest = .ok j ∧ k = j + 1 := by
  rw [countVersions]
  split
  · rename_i hversion
    simp [hversion]
  · rename_i hversion
    simp [hversion]
  · rename_i n hversion
    cases hrest : countVersions rest with
    | error f => by_cases hn : n > 13 ∨ n < 1 <;> simp [hversion, hn, bind, Except.bind]
    | ok j =>
      by_cases hn : n > 13 ∨ n < 1
      · simp [hversion, hn]
        omega
      · simp [hversion, hn, bind, Except.bind]
        omega

/-- **Methods are counted when their versions are in range.** -/
theorem countVersions_ok_iff : ∀ methods : List (String × Rule), (∃ k, countVersions methods = .ok k) ↔
    ∀ m ∈ methods, ∀ x, methodVersion m.1 = some x → ∃ n : Int, x = .ok n ∧ 1 ≤ n ∧ n ≤ 13
  | [] => by simp [countVersions]
  | (method, rule) :: rest => by
      simp only [countVersions_cons, forall_mem_cons, ← countVersions_ok_iff rest]
      constructor
      · rintro ⟨k, ⟨hnone, hk⟩ | ⟨n, j, hversion, hlow, hhigh, hj, -⟩⟩
        · exact ⟨fun x hx => by simp [hnone] at hx, k, hk⟩
        · refine ⟨fun x hx => ⟨n, ?_, hlow, hhigh⟩, j, hj⟩
          exact Option.some.inj (hx.symm.trans hversion)
      · rintro ⟨hfirst, k, hk⟩
        cases hversion : methodVersion method with
        | none => exact ⟨k, Or.inl ⟨rfl, hk⟩⟩
        | some x =>
          obtain ⟨n, rfl, hlow, hhigh⟩ := hfirst x hversion
          exact ⟨k + 1, Or.inr ⟨n, k, rfl, hlow, hhigh, hk, rfl⟩⟩

theorem countVersions_eq_zero : ∀ {methods : List (String × Rule)} {k : Nat},
    countVersions methods = .ok k → (k = 0 ↔ ∀ m ∈ methods, methodVersion m.1 = none)
  | [], k, h => by simp_all [countVersions]
  | (method, rule) :: rest, k, h => by
      rw [forall_mem_cons]
      rcases (countVersions_cons method rule rest k).1 h with ⟨hnone, hk⟩ | ⟨n, j, hn, -, -, -, rfl⟩
      · simp [hnone, countVersions_eq_zero hk]
      · simp [hn]

/-! ## Registration -/

/-- What is asked for names operator types: it is one, or a list of them. -/
def Value.NamesTypes (types : Value) (names : List String) : Prop :=
  (∃ s, types = .str s ∧ names = [s]) ∨ types = .list (names.map .str)

namespace Registration

variable {types : Value} {names : List String} {methods : List (String × Rule)}

theorem run_register_of_kind (r : Registry) (offer : RuleOffer) (hone : ∀ s, types ≠ .str s)
    (hmany : ∀ xs, types ≠ .list xs) : ∃ f, run (register types offer) r = .error f r := by
  cases types with
  | str s => exact absurd rfl (hone s)
  | list xs => exact absurd rfl (hmany xs)
  | _ => exact ⟨_, rfl⟩

theorem run_register_other (r : Registry) (types v : Value) :
    ∃ f, run (register types (.other v)) r = .error f r := by
  cases types <;> exact ⟨_, rfl⟩

theorem run_register_of_not_registrable (r : Registry) (htypes : types.NamesTypes names)
    (h : ¬ Registrable methods) :
    ∃ f, run (register types (.group ⟨methods⟩)) r = .error f r := by
  cases hcount : countVersions methods with
  | error f =>
    refine ⟨f, ?_⟩
    rcases htypes with ⟨s, rfl, -⟩ | rfl <;> simp only [register, hcount] <;> rfl
  | ok k =>
    have hk : k = 0 := by
      rw [countVersions_eq_zero hcount]
      intro m hm
      by_contra hsome
      exact h ⟨⟨m, hm, Option.isSome_iff_ne_none.2 hsome⟩, (countVersions_ok_iff methods).1 ⟨k, hcount⟩⟩
    subst hk
    refine ⟨.refusal .noRuleVersion, ?_⟩
    rcases htypes with ⟨s, rfl, -⟩ | rfl <;> simp only [register, hcount] <;> rfl

theorem run_register_of_registrable (r : Registry) (htypes : types.NamesTypes names)
    (h : Registrable methods) : ∃ r', run (register types (.group ⟨methods⟩)) r = .ok () r' ∧
      r.Merges names (offered? methods) r' := by
  obtain ⟨k, hcount⟩ := (countVersions_ok_iff methods).2 h.in_range
  have hk : k ≠ 0 := fun hk => by
    obtain ⟨m, hm, hsome⟩ := h.some_version
    exact Option.isSome_iff_ne_none.1 hsome ((countVersions_eq_zero hcount).1 hk m hm)
  obtain ⟨j, rfl⟩ := Nat.exists_eq_succ_of_ne_zero hk
  obtain ⟨r', hrun, hmerges⟩ := run_putMethods names methods r fun m hm x hx =>
    (h.in_range m hm x hx).imp fun _ hn => hn.1
  refine ⟨r', ?_, hmerges⟩
  rw [← hrun]
  rcases htypes with ⟨s, rfl, rfl⟩ | rfl <;> simp only [register, hcount] <;> rfl

end Registration

theorem Registrable.version_pos {methods : List (String × Rule)} (h : Registrable methods) {w : Int}
    (hw : (offered? methods w).isSome) : 1 ≤ w := by
  rw [offered?, Option.isSome_map] at hw
  obtain ⟨m, hm⟩ := Option.isSome_iff_exists.1 hw
  have hfor : isForVersion w m.1 = true := find?_some (p := fun m : String × Rule => isForVersion w m.1) hm
  unfold isForVersion at hfor
  split at hfor
  · rename_i v hversion
    obtain ⟨n, hn, hlow, -⟩ :=
      h.in_range m (mem_reverse.1 (mem_of_find?_eq_some hm)) _ hversion
    cases hn
    exact (eq_of_beq hfor) ▸ hlow
  · cases hfor

/-- **A registration is refused as a whole, or merges its versions with those that are known.** -/
theorem register_all_or_nothing (r : Registry) :
    (∀ types offer, (∀ s, types ≠ .str s) → (∀ xs, types ≠ .list xs) →
      ∃ f, EStateM.run (Registration.register types offer) r = .error f r) ∧
    (∀ types v, ∃ f, EStateM.run (Registration.register types (.other v)) r = .error f r) ∧
    ∀ types names, types.NamesTypes names → ∀ methods,
      (¬ Registrable methods →
        ∃ f, EStateM.run (Registration.register types (.group ⟨methods⟩)) r = .error f r) ∧
      (Registrable methods →
        ∃ r', EStateM.run (Registration.register types (.group ⟨methods⟩)) r = .ok () r' ∧ ∀ t v,
          (t ∉ names → r'.ruleFor t v = r.ruleFor t v) ∧
          (t ∈ names →
            (∀ n, IsGreatest (upTo (offered? methods) v) n → (∀ o ∈ upTo (r.rule? t) v, o ≤ n) →
              ∃ rule, offered? methods n = some rule ∧ r'.ruleFor t v = .ok rule) ∧
            (∀ o, IsGreatest (upTo (r.rule? t) v) o → (∀ n ∈ upTo (offered? methods) v, n < o) →
              ∃ rule, r.rule? t o = some rule ∧ r'.ruleFor t v = .ok rule) ∧
            (upTo (offered? methods) v = ∅ → upTo (r.rule? t) v = ∅ →
              r'.ruleFor t v = (r.rule? t (-1)).elim (.error .missingKey) .ok))) := by
  refine ⟨fun types offer => Registration.run_register_of_kind r offer,
    Registration.run_register_other r, fun types names htypes methods =>
      ⟨Registration.run_register_of_not_registrable r htypes, fun h => ?_⟩⟩
  obtain ⟨r', hrun, hmerges⟩ := Registration.run_register_of_registrable r htypes h
  refine ⟨r', hrun, fun t v => ⟨fun ht => hmerges.ruleFor_other ht v, fun ht =>
    ⟨fun n => hmerges.ruleFor_new ht, fun o => hmerges.ruleFor_old ht, fun hnew hold => ?_⟩⟩⟩
  have hnone : offered? methods (-1) = none := by
    by_contra hsome
    exact absurd (h.version_pos (Option.isSome_iff_ne_none.2 hsome)) (by decide)
  rw [Registry.ruleFor_of_upTo_eq_empty, hmerges.merged t ht, hnone, Option.none_or]
  rw [hmerges.upTo_eq ht, hnew, hold, Set.union_self]

/-- A rule that emits nothing. -/
def Rule.silent : Rule := fun _ => pure ()

/-- A rule that always fails. -/
def Rule.failing : Rule := fun _ => throw (.slip .missingKey)

theorem Rule.silent_ne_failing : Rule.silent ≠ Rule.failing := by
  intro h
  have hrun : run (Rule.silent ⟨"", "", [], [], [], none⟩) { opset := 9 } =
      run (Rule.failing ⟨"", "", [], [], [], none⟩) { opset := 9 } := by rw [h]
  cases hrun

theorem methodVersion_eq {method : String} {v : Int} (hmark : method.startsWith versionMark = true)
    (hreads : Reader.int? (without method versionMark) = some v) :
    methodVersion method = some (.ok v) := by
  rw [methodVersion, if_pos hmark, hreads]

theorem methodVersion_nine : methodVersion "opset_9" = some (.ok 9) :=
  methodVersion_eq (by decide +kernel) (by decide +kernel)

/-- Of two spellings of a version the last is used, and a rule of version `-1` is used where there is no
version at all. -/
theorem register_spellings_and_unversioned :
    (∃ r', EStateM.run (Registration.register (.str "probe")
        (.group ⟨[("opset_10", Rule.silent), ("opset_1_0", Rule.failing)]⟩)) ⟨[], []⟩ = .ok () r' ∧
      r'.ruleFor "probe" 10 = .ok Rule.failing) ∧
    (∃ r', EStateM.run (Registration.register (.str "probe") (.group ⟨[("opset_9", Rule.silent)]⟩))
        ⟨[(.str "probe", [(-1, Rule.failing)])], []⟩ = .ok () r' ∧
      r'.ruleFor "probe" (-2) = .ok Rule.failing) ∧
    Rule.silent ≠ Rule.failing := by
  have hplain : methodVersion "opset_10" = some (.ok 10) :=
    methodVersion_eq (by decide +kernel) (by decide +kernel)
  have hspaced : methodVersion "opset_1_0" = some (.ok 10) :=
    methodVersion_eq (by decide +kernel) (by decide +kernel)
  refine ⟨⟨⟨[(.str "probe", [(10, Rule.failing)])], []⟩, ?_, ?_⟩,
    ⟨⟨[(.str "probe", [(-1, Rule.failing), (9, Rule.silent)])], []⟩, ?_, ?_⟩, Rule.silent_ne_failing⟩
  · simp [Registration.register, countVersions, hplain, hspaced, Registration.putMethods,
      Registration.putAll, Registry.put, Registry.putVersion]
    rfl
  · simp [Registry.ruleFor, Registry.rulesOf, latestUpTo]
  · simp [Registration.register, countVersions, methodVersion_nine, Registration.putMethods,
      Registration.putAll, Registry.put, Registry.putVersion]
    rfl
  · have hsorted : [-1, (9 : Int)].mergeSort (fun a b => a ≤ b) = [-1, 9] :=
      List.mergeSort_of_pairwise (by decide)
    simp [Registry.ruleFor, Registry.rulesOf, latestUpTo, hsorted]

/-- Rules for two versions of one type. -/
def Registry.probing : Registry := ⟨[(.str "probe", [(1, Rule.silent), (11, Rule.silent)])], []⟩

theorem Registry.rule?_probing (w : Int) :
    Registry.probing.rule? "probe" w = if w = 1 ∨ w = 11 then some Rule.silent else none := by
  have hrules : Registry.probing.rulesOf (.str "probe") = some [(1, Rule.silent), (11, Rule.silent)] := by
    simp [rulesOf, probing]
  rw [rule?, hrules, Option.getD_some]
  by_cases hone : w = 1
  · subst hone; rfl
  · by_cases heleven : w = 11
    · subst heleven; rfl
    · simp [hone, heleven, Ne.symm hone, Ne.symm heleven]

theorem offered?_nine (rule : Rule) (w : Int) :
    offered? [("opset_9", rule)] w = if w = 9 then some rule else none := by
  by_cases hw : w = 9
  · simp [offered?, isForVersion, methodVersion_nine, hw]
  · simp [offered?, isForVersion, methodVersion_nine, hw, Ne.symm hw]

/-- A version between two others is used up to the next one. -/
theorem register_all_or_nothing_between :
    Registrable [("opset_9", Rule.failing)] ∧
    ∃ r', EStateM.run (Registration.register (.list [.str "probe"])
        (.group ⟨[("opset_9", Rule.failing)]⟩)) Registry.probing = .ok () r' ∧
      r'.ruleFor "probe" 10 = .ok Rule.failing ∧ r'.ruleFor "probe" 12 = .ok Rule.silent ∧
      r'.ruleFor "relu" 12 = Registry.probing.ruleFor "relu" 12 := by
  have hgroup : Registrable [("opset_9", Rule.failing)] :=
    ⟨⟨_, List.mem_singleton_self _, by simp [methodVersion_nine]⟩, by simp [methodVersion_nine]⟩
  have hnew : ∀ v n, n ∈ upTo (offered? [("opset_9", Rule.failing)]) v ↔ n = 9 ∧ n ≤ v := fun v n => by
    by_cases hn : n = 9 <;> simp [upTo, offered?_nine, hn]
  have hold : ∀ v o, o ∈ upTo (Registry.probing.rule? "probe") v ↔ (o = 1 ∨ o = 11) ∧ o ≤ v :=
    fun v o => by by_cases ho : o = 1 ∨ o = 11 <;> simp [upTo, Registry.rule?_probing, ho]
  obtain ⟨-, -, hregister⟩ := register_all_or_nothing Registry.probing
  obtain ⟨r', hrun, hrules⟩ :=
    (hregister (.list [.str "probe"]) ["probe"] (Or.inr rfl) [("opset_9", Rule.failing)]).2 hgroup
  have hprobe : "probe" ∈ ["probe"] := List.mem_singleton_self _
  refine ⟨hgroup, r', hrun, ?_, ?_, (hrules "relu" 12).1 (by decide)⟩
  · obtain ⟨rule, hrule, hfor⟩ := ((hrules "probe" 10).2 hprobe).1 9
      ⟨(hnew 10 9).2 (by decide), fun n hn => ((hnew 10 n).1 hn).1.le⟩
      (fun o ho => by have := (hold 10 o).1 ho; omega)
    rwa [Option.some.inj (hrule.symm.trans (offered?_nine _ 9))] at hfor
  · obtain ⟨rule, hrule, hfor⟩ := ((hrules "probe" 12).2 hprobe).2.1 11
      ⟨(hold 12 11).2 (by decide), fun o ho => by have := (hold 12 o).1 ho; omega⟩
      (fun n hn => by have := (hnew 12 n).1 hn; omega)
    rwa [Option.some.inj (hrule.symm.trans (Registry.rule?_probing 11))] at hfor

end ModelExport
