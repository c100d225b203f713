import Mathlib.Data.List.Basic
import ModelExport.Renaming

/-!
# Proofs/Names — names that are made up during an export

Two kinds of names carry a number at their end: `numbered type k` for what a node is called, and
`Renamer.successor name k` for a tensor that is written over.  Digits contain neither `_` nor `.`, so
the number can be read back (`numbered_inj`, `successor_inj`).
-/

namespace ModelExport

open List

/-- The part before the last occurrence of a mark, and the part behind it, are determined. -/
theorem append_mark_inj {α : Type*} {c : α} {xs ys s t : List α} (hs : c ∉ s) (ht : c ∉ t)
    (h : xs ++ c :: s = ys ++ c :: t) : xs = ys ∧ s = t := by
  rcases append_eq_append_iff.1 h with ⟨u, rfl, hu⟩ | ⟨u, rfl, hu⟩
  · cases u with
    | nil => exact ⟨by simp, by simpa using hu⟩
    | cons a u =>
      obtain ⟨-, hu⟩ := cons_eq_cons.1 hu
      exact absurd (hu ▸ mem_append_right u mem_cons_self) hs
  · cases u with
    | nil => exact ⟨by simp, by simpa using hu.symm⟩
    | cons a u =>
      obtain ⟨-, hu⟩ := cons_eq_cons.1 hu
      exact absurd (hu ▸ mem_append_right u mem_cons_self) ht

/-! ## Digits -/

theorem isDigit_of_mem_toDigits {k : Nat} {c : Char} (h : c ∈ Nat.toDigits 10 k) : c.isDigit = true :=
  Nat.isDigit_of_mem_toDigits (by decide) (by decide) h

theorem not_mem_toDigits {c : Char} (hc : c.isDigit = false) (k : Nat) : c ∉ Nat.toDigits 10 k :=
  fun h => by simp [isDigit_of_mem_toDigits h] at hc

theorem toDigits_inj {j k : Nat} (h : Nat.toDigits 10 j = Nat.toDigits 10 k) : j = k := by
  rw [← Nat.ofDigitChars_ten_toDigits (n := j), h, Nat.ofDigitChars_ten_toDigits]

/-! ## The two kinds of names -/

theorem toList_successor (name : String) (k : Nat) :
    (Renamer.successor name k).toList = name.toList ++ '.' :: Nat.toDigits 10 k := by
  simp [Renamer.successor]

theorem toList_numbered (type : String) (k : Nat) :
    (numbered type k).toList = type.toList ++ '_' :: Nat.toDigits 10 k := by
  simp [numbered]

/-- **A numbered name determines its type and its number**, whatever the type looks like. -/
theorem numbered_inj {t u : String} {j k : Nat} :
    numbered t j = numbered u k ↔ t = u ∧ j = k := by
  refine ⟨fun h => ?_, fun ⟨ht, hk⟩ => by rw [ht, hk]⟩
  have hl := congrArg String.toList h
  rw [toList_numbered, toList_numbered] at hl
  obtain ⟨ht, hk⟩ := append_mark_inj (not_mem_toDigits (by decide) j)
    (not_mem_toDigits (by decide) k) hl
  exact ⟨String.toList_inj.1 ht, toDigits_inj hk⟩

/-- **A successor determines the name it follows and its number.** -/
theorem successor_inj {x y : String} {j k : Nat} :
    Renamer.successor x j = Renamer.successor y k ↔ x = y ∧ j = k := by
  refine ⟨fun h => ?_, fun ⟨hx, hk⟩ => by rw [hx, hk]⟩
  have hl := congrArg String.toList h
  rw [toList_successor, toList_successor] at hl
  obtain ⟨hx, hk⟩ := append_mark_inj (not_mem_toDigits (by decide) j)
    (not_mem_toDigits (by decide) k) hl
  exact ⟨String.toList_inj.1 hx, toDigits_inj hk⟩

/-- A successor is longer than the name it follows. -/
theorem successor_ne (x : String) (k : Nat) : Renamer.successor x k ≠ x := by
  intro h
  have hl := congrArg (fun s : String => s.toList.length) h
  simp only [toList_successor, length_append, length_cons] at hl
  omega

theorem successor_ne_of_dotless (x : String) (k : Nat) {y : String} (hy : '.' ∉ y.toList) :
    Renamer.successor x k ≠ y := by
  rintro rfl
  exact hy (by rw [toList_successor]; simp)

/-- The two kinds are different: the last of the marks decides. -/
theorem numbered_ne_successor (type : String) (j : Nat) (x : String) (k : Nat) :
    numbered type j ≠ Renamer.successor x k := by
  intro h
  have hl := congrArg String.toList h
  rw [toList_numbered, toList_successor] at hl
  rcases append_eq_append_iff.1 hl with ⟨u, -, hu⟩ | ⟨u, -, hu⟩
  · have hdot : '.' ∈ '_' :: Nat.toDigits 10 j := hu ▸ mem_append_right u mem_cons_self
    exact not_mem_toDigits (by decide) j ((mem_cons.1 hdot).resolve_left (by decide))
  · have hmark : '_' ∈ '.' :: Nat.toDigits 10 k := hu ▸ mem_append_right u mem_cons_self
    exact not_mem_toDigits (by decide) k ((mem_cons.1 hmark).resolve_left (by decide))

/-! ## Texts as values -/

@[simp] theorem same_str_str (s t : String) : (Value.str s).same (.str t) = (s == t) := by
  simp [Value.same]

theorem same_str_left (s : String) (v : Value) : (Value.str s).same v = true ↔ v = .str s := by
  cases v with
  | str t => simpa using eq_comm
  | _ => simp [Value.same]

theorem same_str_right (v : Value) (s : String) : v.same (.str s) = true ↔ v = .str s := by
  cases v <;> simp [Value.same, Value.sameNumber, Value.number?, Value.isNone]

theorem any_same_str (vs : List Value) (s : String) :
    (vs.any fun v => v.same (.str s)) = true ↔ .str s ∈ vs := by
  simp only [any_eq_true, same_str_right]
  exact ⟨fun ⟨_, hv, he⟩ => he ▸ hv, fun h => ⟨_, h, rfl⟩⟩

/-- Whether a text is among values can be computed, though values in general cannot be compared. -/
instance decidableMemStr (s : String) (vs : List Value) : Decidable (.str s ∈ vs) :=
  decidable_of_iff _ (any_same_str vs s)

end ModelExport
