/-!
# Assoc — tables in insertion order

A table is a list of keyed entries without repeated keys.  Writing an existing key keeps its place;
a new key goes to the end (`keys_insert`).  A written entry is found again, and the others stay as
they were (`get?_insert`).
-/

namespace ModelExport.Assoc

variable {α : Type _}

def get? (t : List (String × α)) (k : String) : Option α :=
  (t.find? fun e => e.1 == k).map Prod.snd

def contains (t : List (String × α)) (k : String) : Bool := t.any fun e => e.1 == k

/-- **Writes an entry**: in place when the key is known, else at the end. -/
def insert (t : List (String × α)) (k : String) (a : α) : List (String × α) :=
  if contains t k then t.map fun e => if e.1 == k then (k, a) else e else t ++ [(k, a)]

def erase (t : List (String × α)) (k : String) : List (String × α) := t.filter fun e => e.1 != k

def keys (t : List (String × α)) : List String := t.map Prod.fst

def insertAll (t u : List (String × α)) : List (String × α) :=
  u.foldl (fun t e => insert t e.1 e.2) t

/-! ## Keys -/

@[simp]
theorem contains_nil (k : String) : contains ([] : List (String × α)) k = false := rfl

theorem contains_iff_mem_keys (t : List (String × α)) (k : String) :
    contains t k = true ↔ k ∈ keys t := by
  simp [contains, keys]

theorem keys_insert (t : List (String × α)) (k : String) (a : α) :
    keys (insert t k a) = if contains t k then keys t else keys t ++ [k] := by
  unfold insert
  split
  · simp only [keys, List.map_map]
    apply List.map_congr_left
    intro e _
    by_cases h : e.1 = k <;> simp [h]
  · simp [keys]

theorem nodup_keys_insert (t : List (String × α)) (k : String) (a : α) (h : (keys t).Nodup) :
    (keys (insert t k a)).Nodup := by
  rw [keys_insert]
  split
  · exact h
  · rename_i hk
    rw [contains_iff_mem_keys] at hk
    rw [List.nodup_append]
    exact ⟨h, by simp, fun x hx y hy => by
      rw [List.mem_singleton.1 hy]; exact fun e => hk (e ▸ hx)⟩

/-! ## Entries -/

theorem get?_append (t u : List (String × α)) (k : String) :
    get? (t ++ u) k = (get? t k).or (get? u k) := by
  simp only [get?, List.find?_append]
  cases t.find? (fun e => e.1 == k) <;> rfl

theorem get?_eq_none_iff (t : List (String × α)) (k : String) :
    get? t k = none ↔ contains t k = false := by
  simp [get?, contains]

theorem get?_eq_none_of_notMem {t : List (String × α)} {k : String} (h : k ∉ keys t) : get? t k = none := by
  rwa [get?_eq_none_iff, ← Bool.not_eq_true, contains_iff_mem_keys]

theorem get?_cons (e : String × α) (t : List (String × α)) (k : String) :
    get? (e :: t) k = if e.1 = k then some e.2 else get? t k := by
  by_cases h : e.1 = k <;> simp [get?, h]

theorem get?_replace (t : List (String × α)) (k k' : String) (a : α) :
    get? (t.map fun e => if e.1 == k then (k, a) else e) k' =
      if k' = k then (get? t k).map fun _ => a else get? t k' := by
  induction t with
  | nil => simp [get?]
  | cons e t ih =>
    simp only [get?] at ih
    by_cases he : e.1 = k <;> by_cases hk : k' = k <;> by_cases hek : e.1 = k' <;>
      simp_all [get?]

/-- **A written entry is found under its key; other keys keep theirs.** -/
theorem get?_insert (t : List (String × α)) (k k' : String) (a : α) :
    get? (insert t k a) k' = if k' = k then some a else get? t k' := by
  unfold insert
  split
  · rename_i hk
    rw [get?_replace]
    split
    · cases hg : get? t k with
      | none => simp [(get?_eq_none_iff t k).1 hg] at hk
      | some _ => rfl
    · rfl
  · rename_i hk
    rw [get?_append]
    by_cases h : k' = k
    · subst h
      rw [(get?_eq_none_iff t k').2 (by simpa using hk)]
      simp [get?]
    · have : ¬ k = k' := fun e => h e.symm
      simp [get?, h, this]

end ModelExport.Assoc
