import ModelExport.Proofs.Names

/-!
# Proofs/Renaming/Step — what treating one node does

`Renamer.node` reads inputs under their current names and gives a new name to every output that is
then also an input.  Its effect is said once and for all here: inputs by `inputs_node`, the table by
`name?_node` and `count_node`, outputs by `outputs_node`, where `relabel` changes the last place of
a name only.
-/

namespace ModelExport

open List

variable {s : Renamer} {v : Value}

namespace Node

def Reads (n : Node) (x : String) : Prop := .str x ∈ n.inputs

def Writes (n : Node) (x : String) : Prop := .str x ∈ n.outputs

instance (n : Node) (x : String) : Decidable (n.Reads x) := decidableMemStr x n.inputs

instance (n : Node) (x : String) : Decidable (n.Writes x) := decidableMemStr x n.outputs

end Node

/-! ## Relabelling outputs -/

/-- Outputs with new names, each at the last place of the old one. -/
def relabel (new : String → Option String) : List Value → List Value
  | [] => []
  | .str x :: rest =>
    .str (if .str x ∈ rest then x else (new x).getD x) :: relabel new rest
  | v :: rest => v :: relabel new rest

theorem getElem?_relabel (new : String → Option String) :
    ∀ (outs : List Value) (j : Nat) (x : String), outs[j]? = some (.str x) →
      (relabel new outs)[j]? =
        some (.str (if .str x ∈ outs.drop (j + 1) then x else (new x).getD x))
  | [], j, x, h => by simp at h
  | v :: rest, 0, x, h => by
      obtain rfl : v = .str x := by simpa using h
      simp [relabel]
  | v :: rest, j + 1, x, h => by
      have := getElem?_relabel new rest j x (by simpa using h)
      cases v <;> simpa [relabel] using this

theorem getElem?_relabel_other (new : String → Option String) :
    ∀ (outs : List Value) (j : Nat), (∀ x, outs[j]? ≠ some (.str x)) →
      (relabel new outs)[j]? = outs[j]?
  | [], j, _ => rfl
  | v :: rest, 0, h => by
      cases v with
      | str x => exact absurd rfl (h x)
      | _ => rfl
  | v :: rest, j + 1, h => by
      have := getElem?_relabel_other new rest j (by simpa using h)
      cases v <;> simpa [relabel] using this

theorem relabel_eq_map (new : String → Option String) (f : Value → Value) :
    ∀ outs : List Value, outs.Nodup → (∀ x, .str x ∈ outs → f (.str x) = .str ((new x).getD x)) →
      (∀ v ∈ outs, (∀ x, v ≠ .str x) → f v = v) → relabel new outs = outs.map f
  | [], _, _, _ => rfl
  | v :: rest, hn, hs, ho => by
      obtain ⟨hv, hn⟩ := nodup_cons.1 hn
      have ih := relabel_eq_map new f rest hn (fun x hx => hs x (mem_cons_of_mem _ hx))
        (fun w hw => ho w (mem_cons_of_mem _ hw))
      cases v with
      | str x =>
        rw [relabel, if_neg hv, map_cons, hs x mem_cons_self, ih]
      | _ =>
        rw [relabel, map_cons, ih, ho _ mem_cons_self (by simp)]
        simp

/-! ## Tables with texts as keys -/

section Table

variable {β : Type*}

def entryAt (t : List (Value × β)) (x : String) : Option β :=
  (t.find? fun e => e.1.same (.str x)).map Prod.snd

/-- The table with an entry under a text: in place when there is one, else at the end. -/
def putEntry (t : List (Value × β)) (x : String) (b : β) : List (Value × β) :=
  if t.any fun e => e.1.same (.str x) then
    t.map fun e => if e.1.same (.str x) then (e.1, b) else e
  else t ++ [(.str x, b)]

@[simp] theorem entryAt_nil (x : String) : entryAt ([] : List (Value × β)) x = none := rfl

theorem entryAt_cons (y : String) (b : β) (t : List (Value × β)) (x : String) :
    entryAt ((.str y, b) :: t) x = if x = y then some b else entryAt t x := by
  by_cases h : x = y
  · subst h
    simp [entryAt]
  · have : ¬ y = x := fun e => h e.symm
    simp [entryAt, h, this]

theorem any_key_iff (t : List (Value × β)) (x : String) :
    (t.any fun e => e.1.same (.str x)) = true ↔ .str x ∈ t.map Prod.fst := by
  rw [← any_same_str, any_map]
  rfl

theorem entryAt_eq_none (t : List (Value × β)) (x : String) :
    entryAt t x = none ↔ .str x ∉ t.map Prod.fst := by
  rw [entryAt, Option.map_eq_none_iff, ← any_key_iff]
  simp

theorem keys_putEntry (t : List (Value × β)) (x : String) (b : β) :
    (putEntry t x b).map Prod.fst =
      if .str x ∈ t.map Prod.fst then t.map Prod.fst else t.map Prod.fst ++ [.str x] := by
  unfold putEntry
  by_cases h : .str x ∈ t.map Prod.fst
  · rw [if_pos ((any_key_iff t x).2 h), if_pos h, map_map]
    refine map_congr_left fun e _ => ?_
    simp only [Function.comp]
    split <;> rfl
  · rw [if_neg (mt (any_key_iff t x).1 h), if_neg h, map_append]
    rfl

theorem entryAt_putEntry (t : List (Value × β)) (x y : String) (b : β) :
    entryAt (putEntry t x b) y = if y = x then some b else entryAt t y := by
  unfold putEntry
  by_cases hx : (t.any fun e => e.1.same (.str x)) = true
  · have hkey : ((fun e => e.1.same (.str y)) ∘ fun e => if e.1.same (.str x) then (e.1, b) else e)
        = fun e : Value × β => e.1.same (.str y) := by
      funext e
      simp only [Function.comp]
      split <;> rfl
    rw [if_pos hx, entryAt, find?_map, hkey, entryAt]
    cases h : t.find? fun e => e.1.same (.str y) with
    | none =>
      have hy : y ≠ x := by
        rintro rfl
        obtain ⟨e, he, hes⟩ := any_eq_true.1 hx
        exact find?_eq_none.1 h e he hes
      simp [hy]
    | some e =>
      have he := find?_some h
      simp only [same_str_right] at he
      by_cases hy : y = x <;> simp [he, hy]
  · have hnone : entryAt t x = none := by
      rw [entryAt_eq_none, ← any_key_iff]
      exact hx
    have happ : entryAt (t ++ [(.str x, b)]) y = (entryAt t y).or (entryAt [(.str x, b)] y) := by
      simp only [entryAt, find?_append]
      cases t.find? fun e => e.1.same (.str y) <;> rfl
    rw [if_neg hx, happ, entryAt_cons]
    by_cases hy : y = x
    · subst hy
      simp [hnone]
    · simp [hy]

end Table

/-! ## Outputs that are also inputs -/

def lastPlace (x : String) : List Value → Option Nat
  | [] => none
  | v :: rest => match lastPlace x rest with
    | some j => some (j + 1)
    | none => if v.same (.str x) then some 0 else none

theorem lastPlace_eq_none (x : String) : ∀ outs : List Value,
    lastPlace x outs = none ↔ .str x ∉ outs
  | [] => by simp [lastPlace]
  | v :: rest => by
      have ih := lastPlace_eq_none x rest
      rw [lastPlace, mem_cons]
      cases h : lastPlace x rest with
      | some j =>
        have : .str x ∈ rest := by
          by_contra hx
          simp [ih.2 hx] at h
        simp [this]
      | none =>
        have hx : .str x ∉ rest := ih.1 h
        by_cases hv : v.same (.str x) = true
        · simp [(same_str_right v x).1 hv]
        · have hv' : ¬ Value.str x = v := fun e => hv ((same_str_right v x).2 e.symm)
          simp [hv, hx, hv']

theorem lastPlace_eq_some (x : String) : ∀ (outs : List Value) (j : Nat),
    lastPlace x outs = some j ↔ outs[j]? = some (.str x) ∧ .str x ∉ outs.drop (j + 1)
  | [], j => by simp [lastPlace]
  | v :: rest, 0 => by
      have hnone := lastPlace_eq_none x rest
      rw [lastPlace]
      cases h : lastPlace x rest with
      | some j =>
        have : ¬ .str x ∉ rest := fun hx => by simp [hnone.2 hx] at h
        simpa using fun _ => not_not.1 this
      | none =>
        have hx := hnone.1 h
        by_cases hv : v.same (.str x) = true
        · simp [(same_str_right v x).1 hv, hx]
        · have hv' : ¬ v = Value.str x := fun e => hv ((same_str_right v x).2 e)
          simp [hv, hv']
  | v :: rest, j + 1 => by
      have ih := lastPlace_eq_some x rest j
      rw [lastPlace]
      cases h : lastPlace x rest with
      | some k => rw [h] at ih; simpa using ih
      | none =>
        rw [h] at ih
        by_cases hv : v.same (.str x) = true <;> simpa [hv] using ih

section Repeated

variable {p : Value → Bool}

theorem repeatedOutputs_str (i : Nat) (y : String) (rest : List Value) (found : List (Value × Nat)) :
    repeatedOutputs (fun o => .ok (p o)) i (.str y :: rest) found =
      repeatedOutputs (fun o => .ok (p o)) (i + 1) rest
        (if p (.str y) then putEntry found y i else found) := by
  rw [repeatedOutputs]
  cases hp : p (.str y) with
  | false => rfl
  | true =>
    simp only [Except.bind, bind, Value.isKey, putEntry, Bool.not_true, Bool.false_eq_true, if_false,
      if_true]
    split <;> rfl

theorem repeatedOutputs_other {i : Nat} {rest : List Value} {found : List (Value × Nat)} (hv : p v = false) :
    repeatedOutputs (fun o => .ok (p o)) i (v :: rest) found =
      repeatedOutputs (fun o => .ok (p o)) (i + 1) rest found := by
  rw [repeatedOutputs]
  simp only [Except.bind, bind, hv]
  rfl

/-- What has been noted stays noted, and so is every output that is an input. -/
theorem key_of_repeatedOutputs : ∀ {outs : List Value} {i : Nat} {found r : List (Value × Nat)},
    repeatedOutputs (fun o => .ok (p o)) i outs found = .ok r →
      (∀ v ∈ found.map Prod.fst, v ∈ r.map Prod.fst) ∧
        ∀ v ∈ outs, p v = true → ∃ w ∈ r.map Prod.fst, w = v ∨ w.same v = true
  | [], i, found, r, h => by
      obtain rfl : found = r := by simpa [repeatedOutputs] using h
      exact ⟨fun _ hv => hv, fun v hv => absurd hv (by simp)⟩
  | v :: rest, i, found, r, h => by
      cases hp : p v with
      | false =>
        rw [repeatedOutputs_other hp] at h
        obtain ⟨hkeys, hrest⟩ := key_of_repeatedOutputs h
        refine ⟨hkeys, fun w hw hpw => ?_⟩
        rcases mem_cons.1 hw with rfl | hw
        · simp [hp] at hpw
        · exact hrest w hw hpw
      | true =>
        rw [repeatedOutputs] at h
        simp only [Except.bind, bind, hp, if_true] at h
        split at h
        · simp at h
        split at h
        · rename_i hany
          obtain ⟨hkeys, hrest⟩ := key_of_repeatedOutputs h
          have hsame : (found.map fun e => if e.1.same v then (e.1, i) else e).map Prod.fst
              = found.map Prod.fst := by
            rw [map_map]
            refine map_congr_left fun e _ => ?_
            simp only [Function.comp]
            split <;> rfl
          rw [hsame] at hkeys
          refine ⟨hkeys, fun w hw hpw => ?_⟩
          rcases mem_cons.1 hw with rfl | hw
          · obtain ⟨e, he, hes⟩ := any_eq_true.1 hany
            exact ⟨e.1, hkeys _ (mem_map_of_mem he), Or.inr hes⟩
          · exact hrest w hw hpw
        · obtain ⟨hkeys, hrest⟩ := key_of_repeatedOutputs h
          refine ⟨fun w hw => hkeys w (by simp [hw]), fun w hw hpw => ?_⟩
          rcases mem_cons.1 hw with rfl | hw
          · exact ⟨w, hkeys w (by simp), Or.inl rfl⟩
          · exact hrest w hw hpw

/-- **The place noted for a name is its last one**, where the outputs that are inputs are texts. -/
theorem entryAt_repeatedOutputs : ∀ {outs : List Value} {i : Nat} {found r : List (Value × Nat)},
    (∀ v ∈ outs, p v = true → ∃ x, v = .str x) →
    repeatedOutputs (fun o => .ok (p o)) i outs found = .ok r → ∀ x,
      entryAt r x =
        if p (.str x) then ((lastPlace x outs).map (· + i)).or (entryAt found x) else entryAt found x
  | [], i, found, r, _, h, x => by
      obtain rfl : found = r := by simpa [repeatedOutputs] using h
      simp [lastPlace]
  | v :: rest, i, found, r, htext, h, x => by
      have htext' : ∀ w ∈ rest, p w = true → ∃ x, w = .str x :=
        fun w hw => htext w (mem_cons_of_mem _ hw)
      cases hp : p v with
      | false =>
        rw [repeatedOutputs_other hp] at h
        rw [entryAt_repeatedOutputs htext' h x]
        by_cases hx : p (.str x) = true
        · have hv : ¬ v.same (.str x) = true := by
            rw [same_str_right]
            rintro rfl
            simp [hp] at hx
          rw [if_pos hx, if_pos hx, lastPlace]
          cases lastPlace x rest with
          | none => simp [hv]
          | some j => simp [Nat.add_assoc, Nat.add_comm 1 i]
        · rw [if_neg hx, if_neg hx]
      | true =>
        obtain ⟨y, rfl⟩ := htext v mem_cons_self hp
        rw [repeatedOutputs_str, if_pos hp] at h
        rw [entryAt_repeatedOutputs htext' h x, entryAt_putEntry, lastPlace]
        by_cases hxy : x = y
        · subst hxy
          rw [if_pos hp, if_pos hp]
          cases lastPlace x rest with
          | none => simp
          | some j => simp [Nat.add_assoc, Nat.add_comm 1 i]
        · have hyx : ¬ y = x := fun e => hxy e.symm
          rw [if_neg hxy]
          cases lastPlace x rest with
          | none => simp [hyx]
          | some j => simp [Nat.add_assoc, Nat.add_comm 1 i]

theorem nodup_repeatedOutputs : ∀ {outs : List Value} {i : Nat} {found r : List (Value × Nat)},
    (∀ v ∈ outs, p v = true → ∃ x, v = .str x) → (found.map Prod.fst).Nodup →
    repeatedOutputs (fun o => .ok (p o)) i outs found = .ok r → (r.map Prod.fst).Nodup
  | [], i, found, r, _, hf, h => by
      obtain rfl : found = r := by simpa [repeatedOutputs] using h
      exact hf
  | v :: rest, i, found, r, htext, hf, h => by
      have htext' : ∀ w ∈ rest, p w = true → ∃ x, w = .str x :=
        fun w hw => htext w (mem_cons_of_mem _ hw)
      cases hp : p v with
      | false =>
        rw [repeatedOutputs_other hp] at h
        exact nodup_repeatedOutputs htext' hf h
      | true =>
        obtain ⟨y, rfl⟩ := htext v mem_cons_self hp
        rw [repeatedOutputs_str, if_pos hp] at h
        refine nodup_repeatedOutputs htext' ?_ h
        rw [keys_putEntry]
        split
        · exact hf
        · rename_i hy
          exact nodup_append.2 ⟨hf, by simp, fun a ha b hb => by
            rw [mem_singleton.1 hb]
            exact fun e => hy (e ▸ ha)⟩

theorem exists_repeatedOutputs : ∀ (outs : List Value) (i : Nat) (found : List (Value × Nat)),
    (∀ v ∈ outs, ∃ x, v = .str x) →
      ∃ r, repeatedOutputs (fun o => .ok (p o)) i outs found = .ok r ∧
        ∀ v ∈ r.map Prod.fst, v ∈ found.map Prod.fst ∨ v ∈ outs
  | [], _, found, _ => ⟨found, rfl, fun _ hv => Or.inl hv⟩
  | v :: rest, i, found, htext => by
      obtain ⟨y, rfl⟩ := htext v mem_cons_self
      obtain ⟨r, hr, hkeys⟩ := exists_repeatedOutputs rest (i + 1)
        (if p (.str y) then putEntry found y i else found)
        fun w hw => htext w (mem_cons_of_mem _ hw)
      refine ⟨r, by rw [repeatedOutputs_str, hr], fun w hw => ?_⟩
      rcases hkeys w hw with hw | hw
      · split at hw
        · rw [keys_putEntry] at hw
          split at hw
          · exact Or.inl hw
          · rcases mem_append.1 hw with hw | hw
            · exact Or.inl hw
            · exact Or.inr (by simp [mem_singleton.1 hw])
        · exact Or.inl hw
      · exact Or.inr (mem_cons_of_mem _ hw)

end Repeated

namespace Renamer

/-! ## The table of names -/

def count (s : Renamer) (x : String) : Nat := (Assoc.get? s.counts x).getD 0

def name? (s : Renamer) (x : String) : Option String := entryAt s.names x

/-- The name that a tensor gets when it is renamed next. -/
def fresh (s : Renamer) (x : String) : String := successor x (s.count x + 1)

/-- Only texts have new names. -/
def Keyed (s : Renamer) : Prop := ∀ e ∈ s.names, ∃ x, e.1 = .str x

theorem current_str (s : Renamer) (x : String) :
    s.current (.str x) = .str ((s.name? x).getD x) := by
  unfold current name? entryAt
  cases s.names.find? fun e => e.1.same (.str x) <;> rfl

theorem current_other (hs : s.Keyed) (hv : ∀ x, v ≠ .str x) : s.current v = v := by
  have : (s.names.find? fun e => e.1.same v) = none := by
    rw [find?_eq_none]
    intro e he
    obtain ⟨x, hx⟩ := hs e he
    rw [hx, same_str_left]
    exact hv x
  rw [current, this]

theorem name?_rename (s : Renamer) (x y : String) :
    (s.rename x).2.name? y = if y = x then some (s.fresh x) else s.name? y :=
  entryAt_putEntry s.names x y (s.fresh x)

theorem count_rename (s : Renamer) (x y : String) :
    (s.rename x).2.count y = if y = x then s.count x + 1 else s.count y := by
  unfold count rename
  rw [Assoc.get?_insert]
  split <;> rfl

theorem keyed_rename (hs : s.Keyed) (x : String) : (s.rename x).2.Keyed := by
  intro e he
  have hkey : e.1 ∈ (putEntry s.names x (s.fresh x)).map Prod.fst := mem_map_of_mem he
  have hold : ∀ v ∈ s.names.map Prod.fst, ∃ x, v = .str x := by
    intro v hv
    obtain ⟨e', he', rfl⟩ := mem_map.1 hv
    exact hs e' he'
  rw [keys_putEntry] at hkey
  split at hkey
  · exact hold _ hkey
  · rcases mem_append.1 hkey with h | h
    · exact hold _ h
    · exact ⟨x, mem_singleton.1 h⟩

/-! ## New names for outputs -/

theorem text_of_outputs : ∀ {r : List (Value × Nat)} {s : Renamer} {outs : List Value},
    (s.outputs r outs).2.failed = false → ∀ v ∈ r.map Prod.fst, ∃ x, v = .str x
  | [], _, _, _ => fun v hv => absurd hv (by simp)
  | (.str x, i) :: rest, s, outs, h => fun v hv => by
      rcases mem_cons.1 hv with rfl | hv
      · exact ⟨x, rfl⟩
      · exact text_of_outputs (r := rest) (s := (s.rename x).2) h v hv
  | (.none, _) :: _, _, _, h | (.bool _, _) :: _, _, _, h | (.int _, _) :: _, _, _, h
  | (.float _, _) :: _, _, _, h | (.list _, _) :: _, _, _, h | (.tuple _, _) :: _, _, _, h
  | (.dict _, _) :: _, _, _, h | (.object _ _, _) :: _, _, _, h => by simp [outputs] at h

@[simp] theorem outputs_cons (s : Renamer) (x : String) (i : Nat) (r : List (Value × Nat))
    (outs : List Value) : s.outputs ((.str x, i) :: r) outs =
      (s.rename x).2.outputs r (outs.set i (.str (s.fresh x))) := rfl

/-- Repeated outputs: texts, each noted once. -/
inductive Noted : List (Value × Nat) → Prop
  | nil : Noted []
  | cons {r : List (Value × Nat)} (x : String) (i : Nat) :
      entryAt r x = none → Noted r → Noted ((.str x, i) :: r)

theorem noted_of_nodup : ∀ {r : List (Value × Nat)}, (∀ v ∈ r.map Prod.fst, ∃ x, v = .str x) →
    (r.map Prod.fst).Nodup → Noted r
  | [], _, _ => .nil
  | (v, i) :: r, htext, hnodup => by
      obtain ⟨x, rfl⟩ : ∃ x, v = .str x := htext v mem_cons_self
      obtain ⟨hne, hn⟩ := nodup_cons.1 hnodup
      exact .cons x i ((entryAt_eq_none r x).2 hne)
        (noted_of_nodup (fun w hw => htext w (mem_cons_of_mem _ hw)) hn)

section Outputs

variable {r : List (Value × Nat)} (h : Noted r)

include h

theorem count_outputs (s : Renamer) (outs : List Value) (x : String) :
    (s.outputs r outs).2.count x =
      if (entryAt r x).isSome then s.count x + 1 else s.count x := by
  induction h generalizing s outs with
  | nil => rfl
  | cons y i hy _ ih =>
    rw [outputs_cons, ih, entryAt_cons, count_rename]
    by_cases hxy : x = y
    · subst hxy
      simp [hy]
    · simp [hxy]

theorem name?_outputs (s : Renamer) (outs : List Value) (x : String) :
    (s.outputs r outs).2.name? x =
      if (entryAt r x).isSome then some (s.fresh x) else s.name? x := by
  induction h generalizing s outs with
  | nil => rfl
  | cons y i hy _ ih =>
    rw [outputs_cons, ih, entryAt_cons, name?_rename]
    by_cases hxy : x = y
    · subst hxy
      simp [hy]
    · simp [hxy, fresh, count_rename]

theorem failed_outputs (s : Renamer) (outs : List Value) :
    (s.outputs r outs).2.failed = s.failed := by
  induction h generalizing s outs with
  | nil => rfl
  | cons y i _ _ ih => exact ih (s.rename y).2 _

theorem keyed_outputs (hs : s.Keyed) (outs : List Value) : (s.outputs r outs).2.Keyed := by
  induction h generalizing s outs with
  | nil => exact hs
  | cons y i _ _ ih => exact ih (keyed_rename hs y) _

theorem getElem?_outputs_other (s : Renamer) (outs : List Value) {j : Nat}
    (hj : ∀ x, entryAt r x ≠ some j) : (s.outputs r outs).1[j]? = outs[j]? := by
  induction h generalizing s outs with
  | nil => rfl
  | @cons r y i hy _ ih =>
    have hij : i ≠ j := fun h => hj y (by rw [entryAt_cons, if_pos rfl, h])
    have hr : ∀ x, entryAt r x ≠ some j := fun x hx => by
      by_cases hxy : x = y
      · rw [hxy, hy] at hx
        exact absurd hx (by simp)
      · exact hj x (by rw [entryAt_cons, if_neg hxy, hx])
    rw [outputs_cons, ih _ _ hr, getElem?_set_ne hij]

/-- A noted place holds the new name, as long as no two names share a place. -/
theorem getElem?_outputs (s : Renamer) (outs : List Value) {x : String} {j : Nat}
    (hplace : ∀ y z k, entryAt r y = some k → entryAt r z = some k → y = z)
    (hx : entryAt r x = some j) (hj : j < outs.length) :
    (s.outputs r outs).1[j]? = some (.str (s.fresh x)) := by
  induction h generalizing s outs with
  | nil => simp at hx
  | @cons r y i hy hr ih =>
    have hplace' : ∀ z w k, entryAt r z = some k → entryAt r w = some k → z = w := by
      intro z w k hz hw
      have hzy : z ≠ y := fun e => by rw [e, hy] at hz; simp at hz
      have hwy : w ≠ y := fun e => by rw [e, hy] at hw; simp at hw
      exact hplace z w k (by rw [entryAt_cons, if_neg hzy, hz]) (by rw [entryAt_cons, if_neg hwy, hw])
    rw [outputs_cons]
    by_cases hxy : x = y
    · subst hxy
      obtain rfl : i = j := by simpa [entryAt_cons] using hx
      have hother : ∀ z, entryAt r z ≠ some i := fun z hz => by
        have hzx : z ≠ x := fun e => by rw [e, hy] at hz; simp at hz
        exact hzx (hplace z x i (by rw [entryAt_cons, if_neg hzx, hz]) hx)
      rw [getElem?_outputs_other hr _ _ hother, getElem?_set_self hj]
    · rw [entryAt_cons, if_neg hxy] at hx
      rw [ih _ _ hplace' hx (by simpa using hj)]
      simp [fresh, count_rename, hxy]

end Outputs

/-! ## One node -/

theorem inputs_of_keys (s : Renamer) : ∀ {xs : List Value}, (∀ v ∈ xs, v.isKey = true) →
    s.inputs xs = (xs.map s.current, true)
  | [], _ => rfl
  | v :: xs, h => by
      rw [inputs, if_pos (h v mem_cons_self),
        s.inputs_of_keys fun w hw => h w (mem_cons_of_mem _ hw)]
      rfl

theorem keys_of_inputs (s : Renamer) : ∀ xs : List Value, (s.inputs xs).2 = true →
    ∀ v ∈ xs, v.isKey = true
  | [], _, v, hv => absurd hv (by simp)
  | w :: xs, h, v, hv => by
      rw [inputs] at h
      split at h
      · rename_i hw
        rcases mem_cons.1 hv with rfl | hv
        · exact hw
        · exact s.keys_of_inputs xs h v hv
      · simp at h

/-- A node reads, under current names, a tensor whose name it writes. -/
def Repeats (s : Renamer) (n : Node) (x : String) : Prop :=
  .str x ∈ n.inputs.map s.current ∧ n.Writes x

instance (s : Renamer) (n : Node) (x : String) : Decidable (s.Repeats n x) :=
  inferInstanceAs (Decidable (_ ∧ _))

/-- **What treating a node does**, in terms of the outputs that are also inputs: they are noted with
their last place, and those places are renamed. -/
theorem node_cases {n : Node} (h : (s.node n).2.failed = false) :
    (∀ v ∈ n.inputs, v.isKey = true) ∧ ∃ r, Noted r ∧
      (∀ x, entryAt r x = if .str x ∈ n.inputs.map s.current then lastPlace x n.outputs else none) ∧
      s.node n = ({ n with inputs := n.inputs.map s.current, outputs := (s.outputs r n.outputs).1 },
        (s.outputs r n.outputs).2) := by
  have hkeys : ∀ v ∈ n.inputs, v.isKey = true := by
    refine s.keys_of_inputs n.inputs ?_
    by_contra hd
    rw [Bool.not_eq_true] at hd
    unfold node at h
    simp only [hd, Bool.not_false, if_true] at h
    exact absurd h (by simp)
  refine ⟨hkeys, ?_⟩
  have hin := s.inputs_of_keys hkeys
  unfold node at h ⊢
  simp only [hin, Bool.not_true, Bool.false_eq_true, if_false] at h ⊢
  cases hr : repeatedOutputs (fun o => .ok ((n.inputs.map s.current).any fun x => x.same o)) 0
      n.outputs [] with
  | error e =>
    simp only [hr] at h
    exact absurd h (by simp)
  | ok r =>
    simp only [hr] at h ⊢
    have htext := text_of_outputs h
    have houts : ∀ v ∈ n.outputs, ((n.inputs.map s.current).any fun x => x.same v) = true →
        ∃ x, v = .str x := by
      intro v hv hp
      obtain ⟨w, hw, hwv⟩ := (key_of_repeatedOutputs hr).2 v hv hp
      obtain ⟨x, rfl⟩ := htext w hw
      rcases hwv with rfl | hsame
      · exact ⟨x, rfl⟩
      · exact ⟨x, (same_str_left x v).1 hsame⟩
    refine ⟨r, noted_of_nodup htext (nodup_repeatedOutputs houts (by simp) hr), fun x => ?_, rfl⟩
    rw [entryAt_repeatedOutputs houts hr x, entryAt_nil]
    simp only [any_same_str, Nat.add_zero, Option.map_id', Option.or_none]

theorem isSome_place (s : Renamer) (n : Node) (x : String) :
    (if .str x ∈ n.inputs.map s.current then lastPlace x n.outputs else none).isSome = true ↔
      s.Repeats n x := by
  rw [Repeats, Node.Writes]
  split
  · rename_i hin
    rw [Option.isSome_iff_ne_none, Ne, lastPlace_eq_none, not_not]
    exact (and_iff_right hin).symm
  · rename_i hin
    simp [hin]

section Node

variable {s : Renamer} {n : Node} (h : (s.node n).2.failed = false)

include h

theorem inputs_node : (s.node n).1.inputs = n.inputs.map s.current := by
  obtain ⟨-, r, -, -, he⟩ := node_cases h
  rw [he]

theorem count_node (x : String) :
    (s.node n).2.count x = if s.Repeats n x then s.count x + 1 else s.count x := by
  obtain ⟨-, r, hr, hplace, he⟩ := node_cases h
  rw [he, count_outputs hr]
  refine if_congr ?_ rfl rfl
  rw [hplace]
  exact isSome_place s n x

theorem name?_node (x : String) :
    (s.node n).2.name? x = if s.Repeats n x then some (s.fresh x) else s.name? x := by
  obtain ⟨-, r, hr, hplace, he⟩ := node_cases h
  rw [he, name?_outputs hr]
  refine if_congr ?_ rfl rfl
  rw [hplace]
  exact isSome_place s n x

theorem keyed_node (hs : s.Keyed) : (s.node n).2.Keyed := by
  obtain ⟨-, r, hr, -, he⟩ := node_cases h
  rw [he]
  exact keyed_outputs hr hs n.outputs

theorem current_node_of_unwritten (hv : v ∉ n.outputs) (hs : s.Keyed) :
    (s.node n).2.current v = s.current v := by
  by_cases hx : ∃ x, v = .str x
  · obtain ⟨x, rfl⟩ := hx
    rw [current_str, current_str, name?_node h, if_neg fun hrep => hv hrep.2]
  · rw [current_other hs fun x he => hx ⟨x, he⟩,
      current_other (keyed_node h hs) fun x he => hx ⟨x, he⟩]

/-- **The outputs of a treated node**: those that are also inputs have new names, each at its last
place. -/
theorem outputs_node : (s.node n).1.outputs =
    relabel (fun x => if .str x ∈ n.inputs.map s.current then some (s.fresh x) else none)
      n.outputs := by
  obtain ⟨-, r, hr, hplace, he⟩ := node_cases h
  have hnoted : ∀ x j, entryAt r x = some j ↔ .str x ∈ n.inputs.map s.current ∧
      n.outputs[j]? = some (.str x) ∧ .str x ∉ n.outputs.drop (j + 1) := by
    intro x j
    rw [hplace, ← lastPlace_eq_some]
    split <;> simp_all
  rw [he]
  refine ext_getElem? fun j => ?_
  by_cases hj : ∃ x, entryAt r x = some j
  · obtain ⟨x, hx⟩ := hj
    obtain ⟨hin, hget, hlast⟩ := (hnoted x j).1 hx
    rw [getElem?_relabel _ _ _ _ hget, if_neg hlast, if_pos hin]
    refine getElem?_outputs hr s n.outputs ?_ hx (List.getElem?_eq_some_iff.1 hget).1
    intro y z k hy hz
    have := ((hnoted y k).1 hy).2.1.symm.trans ((hnoted z k).1 hz).2.1
    simpa using this
  · have hother : ∀ x, entryAt r x ≠ some j := fun x hx => hj ⟨x, hx⟩
    rw [getElem?_outputs_other hr s n.outputs hother]
    by_cases hget : ∃ x, n.outputs[j]? = some (.str x)
    · obtain ⟨x, hget⟩ := hget
      rw [getElem?_relabel _ _ _ _ hget, hget]
      by_cases hin : .str x ∈ n.inputs.map s.current
      · by_cases hlast : .str x ∈ n.outputs.drop (j + 1)
        · rw [if_pos hlast]
        · exact absurd ((hnoted x j).2 ⟨hin, hget, hlast⟩) (hother x)
      · simp [hin]
    · exact (getElem?_relabel_other _ _ _ fun x hx => hget ⟨x, hx⟩).symm

theorem getElem?_outputs_node {x : String} {p : Nat} (hp : lastPlace x n.outputs = some p) :
    (s.node n).1.outputs[p]? = some (.str (if s.Repeats n x then s.fresh x else x)) := by
  obtain ⟨hget, hlast⟩ := (lastPlace_eq_some x n.outputs p).1 hp
  have hwrites : n.Writes x := mem_of_getElem? hget
  rw [outputs_node h, getElem?_relabel _ _ _ _ hget, if_neg hlast]
  by_cases hin : .str x ∈ n.inputs.map s.current
  · rw [if_pos hin, if_pos ⟨hin, hwrites⟩, Option.getD_some]
  · rw [if_neg hin, if_neg fun hrep => hin hrep.1, Option.getD_none]

theorem node_frame : (s.node n).1 =
    { n with inputs := (s.node n).1.inputs, outputs := (s.node n).1.outputs } := by
  obtain ⟨-, r, -, -, he⟩ := node_cases h
  rw [he]

end Node

/-- **A node of texts is always treated**: inputs that can be looked up, outputs that are names. -/
theorem failed_node {n : Node} (hin : ∀ v ∈ n.inputs, v.isKey = true) (hout : ∀ v ∈ n.outputs, ∃ x, v = .str x) :
    (s.node n).2.failed = s.failed := by
  obtain ⟨r, hr, hkeys⟩ := exists_repeatedOutputs
    (p := fun o => (n.inputs.map s.current).any fun x => x.same o) n.outputs 0 [] hout
  have htext : ∀ v ∈ r.map Prod.fst, ∃ x, v = .str x := fun v hv =>
    (hkeys v hv).elim (fun h => absurd h (by simp)) (hout v)
  have hnoted := noted_of_nodup htext (nodup_repeatedOutputs (fun v hv _ => hout v hv) (by simp) hr)
  unfold node
  simp only [s.inputs_of_keys hin, Bool.not_true, Bool.false_eq_true, if_false, hr]
  exact failed_outputs hnoted s n.outputs

end Renamer

end ModelExport
