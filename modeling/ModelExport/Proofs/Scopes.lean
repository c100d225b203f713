import Mathlib.Data.List.Nodup
import Mathlib.Data.List.Pairwise
import ModelExport.Composite
import ModelExport.Proofs.Names

/-!
# Proofs/Scopes — the scopes of expansions

    a      a0_  a1_  …  a9_  a10_
    a1     a10_

Each expansion has a scope of its own for its names: the type and a number, with nothing between them.  So the
numbers of one type run into the name of another that goes on with digits, and the eleventh expansion of `a` has the
scope of the first one of `a1`.  Apart from that scopes are different (`scopes_distinct_iff`).
-/

namespace ModelExport

open Emit List

variable {t u : String} {j k : Nat}

/-! ## Types and numbers -/

theorem toList_scopeName (t : String) (k : Nat) :
    (scopeName t k).toList = t.toList ++ Nat.toDigits 10 k ++ ['_'] := by
  simp [scopeName]

/-- What stands in front of the digits of a number is a number itself, and counts ten times at least. -/
theorem exists_toDigits_of_append {w : List Char} (hw : w ≠ []) (h : Nat.toDigits 10 k = w ++ Nat.toDigits 10 j) :
    ∃ m, 0 < m ∧ w = Nat.toDigits 10 m ∧ 10 * m ≤ k := by
  induction j using Nat.strongRecOn generalizing k with
  | ind j ih =>
    have hten : 10 ≤ k := by
      by_contra hlt
      have hlen := congrArg List.length h
      rw [Nat.toDigits_of_lt_base (by omega), length_singleton, length_append] at hlen
      have hfront := length_pos_iff.2 hw
      have hback := Nat.length_toDigits_pos (b := 10) (n := j)
      omega
    rw [Nat.toDigits_of_base_le (by decide) hten] at h
    by_cases hj : j < 10
    · rw [Nat.toDigits_of_lt_base hj] at h
      exact ⟨k / 10, by omega, (append_inj_left' h rfl).symm, by omega⟩
    · rw [Nat.toDigits_of_base_le (n := j) (by decide) (Nat.not_lt.1 hj), ← append_assoc] at h
      obtain ⟨m, hm, hdigits, hle⟩ := ih (j / 10) (by omega) (append_inj_left' h rfl)
      exact ⟨m, hm, hdigits, by omega⟩

/-- **Equal scopes** are those of one expansion, or the numbers of a type have run into the name of another. -/
theorem scopeName_cases (h : scopeName t k = scopeName u j) : t = u ∧ k = j ∨
    (∃ m, 0 < m ∧ u = t ++ toString m ∧ 10 * m ≤ k) ∨ ∃ m, 0 < m ∧ t = u ++ toString m ∧ 10 * m ≤ j := by
  have hchars := congrArg String.toList h
  rw [toList_scopeName, toList_scopeName] at hchars
  rcases append_eq_append_iff.1 (append_inj_left' hchars rfl) with ⟨w, hu, hw⟩ | ⟨w, ht, hw⟩
  · rcases eq_or_ne w [] with rfl | hne
    · exact Or.inl ⟨(String.toList_inj.1 (by simpa using hu)).symm, toDigits_inj hw⟩
    · obtain ⟨m, hm, rfl, hle⟩ := exists_toDigits_of_append hne hw
      exact Or.inr (Or.inl ⟨m, hm, String.toList_inj.1 (by simpa using hu), hle⟩)
  · rcases eq_or_ne w [] with rfl | hne
    · exact Or.inl ⟨String.toList_inj.1 (by simpa using ht), (toDigits_inj hw).symm⟩
    · obtain ⟨m, hm, rfl, hle⟩ := exists_toDigits_of_append hne hw
      exact Or.inr (Or.inr ⟨m, hm, String.toList_inj.1 (by simpa using ht), hle⟩)

theorem scopeName_ten_mul (t : String) {m : Nat} (hm : 0 < m) :
    scopeName t (10 * m) = scopeName (t ++ toString m) 0 := by
  have hdigits : Nat.toDigits 10 m ++ Nat.toDigits 10 0 = Nat.toDigits 10 (10 * m) :=
    Nat.toDigits_append_toDigits (by decide) hm (by decide)
  apply String.toList_inj.1
  simp [toList_scopeName, ← hdigits]

/-- A scope at the beginning of another is the same, or stands at the beginning of the other's type. -/
theorem prefix_scopeName (h : (scopeName t k).toList <+: (scopeName u j).toList) :
    scopeName t k = scopeName u j ∨ (scopeName t k).toList <+: u.toList := by
  rw [toList_scopeName u j] at h
  rcases prefix_concat_iff.1 h with heq | ⟨rest, hrest⟩
  · exact Or.inl (String.toList_inj.1 (heq.trans (toList_scopeName u j).symm))
  · refine Or.inr ?_
    rcases append_eq_append_iff.1 hrest with ⟨w, hu, -⟩ | ⟨w, hscope, hdigits⟩
    · exact ⟨w, hu.symm⟩
    · -- the mark at the end of the scope is no digit, so nothing of the scope lies beyond the type
      have hlast : (scopeName t k).toList.getLast? = some '_' := by simp [toList_scopeName]
      rcases eq_nil_or_concat w with rfl | ⟨w, c, rfl⟩
      · exact ⟨[], by simp [hscope]⟩
      · obtain rfl : c = '_' := by simpa [hscope] using hlast
        exact absurd (by simp [hdigits]) (not_mem_toDigits (c := '_') (by decide) j)

/-! ## Names in a scope -/

/-- **A name in a scope.** -/
def InScope (scope name : String) : Prop := ∃ x, name = scope ++ x

/-- **Scopes that have no name in common.** -/
def ScopesApart (s s' : String) : Prop := ∀ name, InScope s name → ¬ InScope s' name

theorem scopesApart_iff {s s' : String} :
    ScopesApart s s' ↔ ¬ s.toList <+: s'.toList ∧ ¬ s'.toList <+: s.toList := by
  constructor
  · refine fun h => ⟨fun ⟨x, hx⟩ => h s' ⟨.ofList x, ?_⟩ ⟨"", ?_⟩, fun ⟨x, hx⟩ => h s ⟨"", ?_⟩ ⟨.ofList x, ?_⟩⟩
    all_goals exact String.toList_inj.1 (by simp [hx])
  · rintro ⟨hne, hne'⟩ _ ⟨x, rfl⟩ ⟨y, hy⟩
    have hchars := congrArg String.toList hy
    rw [String.toList_append, String.toList_append] at hchars
    exact (List.prefix_or_prefix_of_prefix ⟨_, hchars⟩ ⟨_, rfl⟩).elim hne hne'

theorem ScopesApart.ne {s s' : String} (h : ScopesApart s s') : s ≠ s' :=
  fun heq => (scopesApart_iff.1 h).1 (heq ▸ prefix_rfl)

instance : Std.Symm ScopesApart := ⟨fun _ _ h name hname hname' => h name hname' hname⟩

namespace Fragment

/-- A fragment whose variables have names of their own in every scope. -/
def Scoped (f : Fragment) : Prop := ∀ v ∈ f.vars, ∃ x, v.name = "%" ++ x

theorem Scoped.inScope {f : Fragment} (h : f.Scoped) (scope : String) :
    ∀ v ∈ (f.inScope scope).vars, InScope scope v.name := by
  intro v hv
  obtain ⟨w, hw, rfl⟩ := mem_map.1 hv
  obtain ⟨x, hx⟩ := h w hw
  exact ⟨qualify scope x, String.toList_inj.1 (by simp [qualify, hx])⟩

end Fragment

/-! ## Expansions in a row -/

/-- How often a type has been expanded. -/
def Draft.expanded (d : Draft) (type : String) : Nat := (Assoc.get? d.expansions type).getD 0

/-- **Scopes that are asked for one after another** are those of the numbers that follow for each type, each once. -/
theorem exists_numbers (types : List String) (d : Draft) : ∃ (es : List (String × Nat)) (d' : Draft),
    EStateM.run (types.mapM freshScope) d = .ok (es.map fun e => scopeName e.1 e.2) d' ∧
      es.length = types.length ∧ es.Nodup ∧
      ∀ e, e ∈ es ↔ d.expanded e.1 ≤ e.2 ∧ e.2 < d.expanded e.1 + types.count e.1 := by
  induction types generalizing d with
  | nil => exact ⟨[], d, rfl, rfl, nodup_nil, by simp⟩
  | cons t types ih =>
    let d₁ : Draft := { d with expansions := Assoc.insert d.expansions t (d.expanded t + 1) }
    obtain ⟨es, d', hrun, hlen, hnodup, hmem⟩ := ih d₁
    have hcount : ∀ u, d₁.expanded u = if u = t then d.expanded t + 1 else d.expanded u := fun u => by
      simp only [Draft.expanded, d₁, Assoc.get?_insert]
      split <;> rfl
    refine ⟨(t, d.expanded t) :: es, d', ?_, congrArg (· + 1) hlen, ?_, fun ⟨u, k⟩ => ?_⟩
    · have hstep : EStateM.run (freshScope t) d = .ok (scopeName t (d.expanded t)) d₁ := rfl
      simp only [mapM_cons, EStateM.run_bind, hstep, hrun]
      rfl
    · refine nodup_cons.2 ⟨fun h => ?_, hnodup⟩
      have hge := ((hmem _).1 h).1
      rw [hcount, if_pos rfl] at hge
      omega
    · rw [mem_cons, hmem, hcount, Prod.mk.injEq, count_cons]
      by_cases hu : u = t
      · simp [hu]
        omega
      · simp [hu, Ne.symm hu]

section Numbers

variable {types : List String} {es : List (String × Nat)} (hnodup : es.Nodup)
  (hmem : ∀ t k, (t, k) ∈ es ↔ k < types.count t)

include hnodup hmem

/-- **Scopes are different if and only if** the numbers of no type run into the name of another. -/
theorem nodup_scopes_iff : (es.map fun e => scopeName e.1 e.2).Nodup ↔
    ∀ t ∈ types, ∀ m > 0, t ++ toString m ∈ types → types.count t ≤ 10 * m := by
  rw [nodup_map_iff_inj_on hnodup]
  constructor
  · intro hinj t ht m hm hu
    by_contra hlt
    have heq := hinj (t, 10 * m) ((hmem _ _).2 (Nat.not_le.1 hlt)) (t ++ toString m, 0)
      ((hmem _ _).2 (count_pos_iff.2 hu)) (scopeName_ten_mul t hm)
    have hzero : 10 * m = 0 := congrArg Prod.snd heq
    omega
  · rintro h ⟨t, k⟩ hk ⟨u, j⟩ hj heq
    rw [hmem] at hk hj
    have ht := count_pos_iff.1 (Nat.zero_lt_of_lt hk)
    have hu := count_pos_iff.1 (Nat.zero_lt_of_lt hj)
    rcases scopeName_cases heq with ⟨rfl, rfl⟩ | ⟨m, hm, rfl, hle⟩ | ⟨m, hm, rfl, hle⟩
    · rfl
    · exact absurd (h t ht m hm hu) (by omega)
    · exact absurd (h u hu m hm ht) (by omega)

/-- **Scopes are apart if and only if** they are different and none stands at the beginning of a type. -/
theorem pairwise_scopesApart_iff : (es.map fun e => scopeName e.1 e.2).Pairwise ScopesApart ↔
    (es.map fun e => scopeName e.1 e.2).Nodup ∧
      ∀ t ∈ types, ∀ k < types.count t, ∀ u ∈ types, ¬ (scopeName t k).toList <+: u.toList := by
  constructor
  · refine fun h => ⟨h.imp ScopesApart.ne, fun t _ k hk u hu hfront => ?_⟩
    have hbegins : u.toList <+: (scopeName u 0).toList := by
      rw [toList_scopeName, append_assoc]
      exact prefix_append _ _
    have hne : scopeName t k ≠ scopeName u 0 := fun heq => by
      have hle := hfront.length_le
      rw [heq, toList_scopeName] at hle
      simp only [length_append, length_singleton] at hle
      omega
    have hapart := h.forall (mem_map.2 ⟨(t, k), (hmem _ _).2 hk, rfl⟩)
      (mem_map.2 ⟨(u, 0), (hmem _ _).2 (count_pos_iff.2 hu), rfl⟩) hne
    exact (scopesApart_iff.1 hapart).1 (hfront.trans hbegins)
  · rintro ⟨hscopes, hnest⟩
    have hinj := (nodup_map_iff_inj_on hnodup).1 hscopes
    have hapart : ∀ a ∈ es, ∀ b ∈ es, a ≠ b → ¬ (scopeName a.1 a.2).toList <+: (scopeName b.1 b.2).toList := by
      rintro ⟨t, k⟩ ha ⟨u, j⟩ hb hne hprefix
      rcases prefix_scopeName hprefix with heq | hfront
      · exact hne (hinj _ ha _ hb heq)
      · rw [hmem] at ha hb
        exact hnest t (count_pos_iff.1 (Nat.zero_lt_of_lt ha)) k ha u
          (count_pos_iff.1 (Nat.zero_lt_of_lt hb)) hfront
    refine pairwise_map.2 (hnodup.pairwise_of_forall_ne fun a ha b hb hne => ?_)
    exact scopesApart_iff.2 ⟨hapart a ha b hb hne, hapart b hb a ha hne.symm⟩

end Numbers

/-- **Expansions have scopes of their own if and only if** no type is expanded so often that its numbers run into the
name of another: at most `10 * m` times where there is a type that goes on with the number `m`.  Variables are named in
the scope of their expansion, and these names are apart if and only if, besides, no type begins with a scope. -/
theorem scopes_distinct_iff (d : Draft) (types : List String) : ∃ scopes d',
    EStateM.run (types.mapM freshScope) { d with expansions := [] } = .ok scopes d' ∧
      scopes.length = types.length ∧
      (scopes.Nodup ↔ ∀ t ∈ types, ∀ m > 0, t ++ toString m ∈ types → types.count t ≤ 10 * m) ∧
      (∀ s ∈ scopes, ∀ f : Fragment, f.Scoped → ∀ v ∈ (f.inScope s).vars, InScope s v.name) ∧
      (scopes.Pairwise ScopesApart ↔ scopes.Nodup ∧
        ∀ t ∈ types, ∀ k < types.count t, ∀ u ∈ types, ¬ (scopeName t k).toList <+: u.toList) := by
  obtain ⟨es, d', hrun, hlen, hnodup, hmem⟩ := exists_numbers types { d with expansions := [] }
  have hmem : ∀ t k, (t, k) ∈ es ↔ k < types.count t := fun t k => by
    simpa [Draft.expanded, Assoc.get?] using hmem (t, k)
  exact ⟨_, d', hrun, by rw [List.length_map, hlen], nodup_scopes_iff hnodup hmem, fun s _ f hf => hf.inScope s,
    pairwise_scopesApart_iff hnodup hmem⟩

end ModelExport
