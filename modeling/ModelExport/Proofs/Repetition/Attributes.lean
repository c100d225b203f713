import ModelExport.Proofs.Emission.Emits

/-!
# Proofs/Repetition/Attributes — attributes that rules change

A few rules change attributes of the operator they are applied to, and the operator keeps them.
`Edits` says what such a step does to a draft; the operator with the changes is `OpNode.edited`.
-/

namespace ModelExport

open Emit List

variable {axes bounds kernel paddings v w x : Value} {i size : Int} {k n : Nat}
  {adjust : Value → Value → Except Slip (Option Value)} {α : Type} {d d' : Draft}

/-! ## Numbers -/

theorem not_float_lt_self (x : Float) : ¬ x < x := by
  intro h
  have hcompare : (x.toModel.unpack.compare x.toModel.unpack == some Ordering.lt) = true := by
    simpa [LT.lt, Float.lt, Float.Model.lt, Float.Model.UnpackedFloat.lt] using h
  generalize x.toModel.unpack = u at hcompare
  cases u with
  | infinity s => cases s <;> cases hcompare
  | notANumber => cases hcompare
  | zero s => cases hcompare
  | finite s m e hm =>
    cases s with
    | positive =>
      change (some ((compare e e).then (compare m m)) == some Ordering.lt) = true at hcompare
      simp at hcompare
    | negative =>
      change (some ((compare e e).then (compare m m)).swap == some Ordering.lt) = true at hcompare
      simp at hcompare

theorem Number.order?_self (a : Number) : a.order? a = some .eq ∨ a.order? a = none := by
  cases a with
  | exact i => exact Or.inl (by simp [Number.order?])
  | rounded x =>
    rw [Number.order?, if_neg (not_float_lt_self x), if_neg (not_float_lt_self x)]
    split
    · exact Or.inl rfl
    · exact Or.inr rfl

/-- A double is the same as one integer at most. -/
theorem Number.eq_of_same {a : Number} {j : Int} (hi : a.same (.exact i) = true) (hj : a.same (.exact j) = true) :
    i = j := by
  cases a with
  | exact k =>
    have hki : k = i := by simpa [Number.same, Number.order?] using hi
    have hkj : k = j := by simpa [Number.same, Number.order?] using hj
    exact hki.symm.trans hkj
  | rounded x =>
    simp only [Number.same, Number.order?, Binary.compareInt, beq_iff_eq] at hi hj
    split at hi
    · cases hi
    · split at hi <;> cases hi
    · rename_i negative m q hx
      rw [hx] at hj
      dsimp only at hi hj
      have hpos : (0 : Int) < (Binary.dyadic m q).2 := by
        cases q with
        | ofNat k => exact Int.one_pos
        | negSucc k => exact Int.natCast_pos.2 (Nat.two_pow_pos (k + 1))
      simp only [Option.some.injEq, Int.compare_eq_eq] at hi hj
      exact Int.eq_of_mul_eq_mul_right (Int.ne_of_gt hpos) (hi.symm.trans hj)

theorem except_ok_bind {ε β : Type} (a : α) (f : α → Except ε β) : (Except.ok a >>= f) = f a := rfl

namespace Value

theorem lt_self {a : Number} (h : v.number? = some a) : v.lt v = .ok false := by
  have horder : v.order v = .ok (a.order? a) := by
    cases v <;> cases h <;> rfl
  unfold lt
  rw [horder]
  rcases a.order?_self with ha | ha <;> rw [ha] <;> rfl

theorem number?_add_int (h : Value.add (.int i) v = .ok w) : ∃ a, w.number? = some a := by
  unfold Value.add at h
  obtain ⟨a, ha, h₁⟩ := except_bind_ok h
  obtain ⟨b, hb, h₂⟩ := except_bind_ok h₁
  split at h₂
  · rw [← Except.ok.inj h₂]
    exact ⟨_, rfl⟩
  · obtain ⟨x, -, h₃⟩ := except_bind_ok h₂
    obtain ⟨y, -, h₄⟩ := except_bind_ok h₃
    rw [← Except.ok.inj h₄]
    exact ⟨_, rfl⟩

theorem eq_of_same_int {j : Int} (hi : v.same (.int i) = true) (hj : v.same (.int j) = true) : i = j := by
  cases v with
  | bool b => exact Number.eq_of_same hi hj
  | int k => exact Number.eq_of_same hi hj
  | float x => exact Number.eq_of_same hi hj
  | none | str _ | list _ | tuple _ | dict _ | object _ _ => simp [same, isNone] at hi

theorem same_int_int (i j : Int) : (Value.int i).same (.int j) = true ↔ i = j := by
  simp [same, sameNumber, number?, Number.same, Number.order?]

/-! ## Members -/

theorem place?_natCast (n k : Nat) : place? n k = if k < n then some k else Option.none := by
  have hk : ¬ (k : Int) < 0 := Int.not_lt.2 (Int.natCast_nonneg k)
  simp only [place?, if_neg hk, Int.natCast_nonneg, true_and, Int.ofNat_lt, Int.toNat_natCast]

theorem exists_place? (hlow : -(n : Int) ≤ i) (hhigh : i < n) : ∃ k < n, place? n i = some k := by
  have hplace : 0 ≤ (if i < 0 then i + n else i) ∧ (if i < 0 then i + n else i) < n := by
    split <;> omega
  exact ⟨_, by omega, if_pos hplace⟩

theorem exists_memberAt {xs : List α} (hlow : -(xs.length : Int) ≤ i) (hhigh : i < xs.length) :
    ∃ x, memberAt xs i = .ok x := by
  obtain ⟨k, hk, hplace⟩ := exists_place? hlow hhigh
  exact ⟨xs[k], by simp only [memberAt, hplace, getElem?_eq_getElem hk]⟩

theorem memberAt_natCast (xs : List α) (k : Nat) :
    memberAt xs k = match xs[k]? with | some x => .ok x | Option.none => .error .outOfRange := by
  rw [memberAt, place?_natCast]
  by_cases hk : k < xs.length
  · rw [if_pos hk]
    rfl
  · rw [if_neg hk, getElem?_eq_none (Nat.le_of_not_lt hk)]

theorem set_list_eq (xs : List Value) (k : Nat) (x : Value) : (Value.list xs).set (.int k) x =
    if k < xs.length then .ok (.list (xs.set k x)) else .error .outOfRange := by
  change (do .ok (.list (← replaceAt xs k x)) : Except Slip Value) = _
  rw [replaceAt, place?_natCast]
  by_cases hk : k < xs.length
  · rw [if_pos hk, if_pos hk]
    rfl
  · rw [if_neg hk, if_neg hk]
    rfl

theorem set_list {xs : List Value} (h : (Value.list xs).set (.int k) x = .ok w) :
    k < xs.length ∧ w = .list (xs.set k x) := by
  rw [set_list_eq] at h
  split at h
  · exact ⟨‹_›, (Except.ok.inj h).symm⟩
  · cases h

theorem lookup_cons (f : Value × Value) (fs : List (Value × Value)) (k : Value) :
    lookup (f :: fs) k = if f.1.same k then some f.2 else lookup fs k := by
  unfold lookup
  by_cases h : f.1.same k = true <;> simp [h]

theorem any_same_iff (fs : List (Value × Value)) (k : Value) :
    fs.any (fun f => f.1.same k) = true ↔ lookup fs k ≠ Option.none := by
  simp [lookup]

theorem lookup_replaced (fs : List (Value × Value)) (i j : Int) (x : Value) :
    lookup (fs.map fun f => if f.1.same (.int i) then (f.1, x) else f) (.int j) =
      if j = i then (lookup fs (.int i)).map fun _ => x else lookup fs (.int j) := by
  induction fs with
  | nil => simp [lookup]
  | cons f fs ih =>
    rw [map_cons, lookup_cons, lookup_cons, lookup_cons, ih]
    by_cases hi : f.1.same (.int i) = true <;> by_cases hj : f.1.same (.int j) = true
    · obtain rfl := eq_of_same_int hi hj
      simp [hi]
    · have hji : j ≠ i := fun h => hj (h ▸ hi)
      simp [hi, hj, hji]
    · have hji : j ≠ i := fun h => hi (h ▸ hj)
      simp [hi, hj, hji]
    · simp [hi, hj]

theorem lookup_append_single (fs : List (Value × Value)) (k x j : Value) :
    lookup (fs ++ [(k, x)]) j = (lookup fs j).or (if k.same j then some x else Option.none) := by
  induction fs with
  | nil => rw [nil_append, lookup_cons]; rfl
  | cons f fs ih =>
    rw [cons_append, lookup_cons, lookup_cons, ih]
    split <;> rfl

/-- **A table with an entry set**: the entry is found under its key, others stay. -/
theorem set_dict {fs : List (Value × Value)} (h : (Value.dict fs).set (.int i) x = .ok w) :
    ∃ gs, w = .dict gs ∧ (lookup fs (.int i) ≠ Option.none → gs.length = fs.length) ∧
      ∀ j : Int, lookup gs (.int j) = if j = i then some x else lookup fs (.int j) := by
  by_cases hold : lookup fs (.int i) = Option.none
  · have hset : (Value.dict fs).set (.int i) x = .ok (.dict (fs ++ [(.int i, x)])) := by
      have hnone : ¬ fs.any (fun f => f.1.same (.int i)) = true := by
        rw [any_same_iff]
        exact fun h => h hold
      simp only [set, isKey, Bool.not_true, Bool.false_eq_true, if_false, if_neg hnone]
    refine ⟨_, (Except.ok.inj (h.symm.trans hset)), fun h => absurd hold h, fun j => ?_⟩
    rw [lookup_append_single]
    by_cases hji : j = i
    · rw [if_pos hji, if_pos ((same_int_int i j).2 hji.symm), hji, hold]
      rfl
    · rw [if_neg hji, if_neg fun h => hji ((same_int_int i j).1 h).symm, Option.or_none]
  · have hset : (Value.dict fs).set (.int i) x =
        .ok (.dict (fs.map fun f => if f.1.same (.int i) then (f.1, x) else f)) := by
      simp only [set, isKey, Bool.not_true, Bool.false_eq_true, if_false,
        if_pos ((any_same_iff fs (.int i)).2 hold)]
    refine ⟨_, (Except.ok.inj (h.symm.trans hset)), fun _ => length_map _, fun j => ?_⟩
    obtain ⟨y, hy⟩ := Option.ne_none_iff_exists'.1 hold
    rw [lookup_replaced, hy]
    rfl

theorem get_dict (fs : List (Value × Value)) (i : Int) : (Value.dict fs).nth i =
    match lookup fs (.int i) with | some x => .ok x | Option.none => .error .missingKey := by
  rfl

/-- **What is set at a position is found there.** -/
theorem nth_set_self (h : v.set (.int k) x = .ok w) : w.nth k = .ok x := by
  cases v with
  | list xs =>
    obtain ⟨hk, rfl⟩ := set_list h
    change memberAt (xs.set k x) k = _
    rw [memberAt_natCast, getElem?_set_self hk]
  | dict fs =>
    obtain ⟨gs, rfl, -, hgs⟩ := set_dict h
    rw [get_dict, hgs, if_pos rfl]
  | none | bool _ | int _ | float _ | str _ | tuple _ | object _ _ => cases h

/-- **Other positions keep their members.** -/
theorem nth_set_other {j : Nat} (h : v.set (.int k) x = .ok w) (hjk : j ≠ k) : w.nth j = v.nth j := by
  cases v with
  | list xs =>
    obtain ⟨hk, rfl⟩ := set_list h
    change memberAt (xs.set k x) j = memberAt xs j
    rw [memberAt_natCast, memberAt_natCast, getElem?_set_ne hjk.symm]
  | dict fs =>
    obtain ⟨gs, rfl, -, hgs⟩ := set_dict h
    rw [get_dict, get_dict, hgs, if_neg fun h => hjk (Int.ofNat_inj.1 h)]
  | none | bool _ | int _ | float _ | str _ | tuple _ | object _ _ => cases h

theorem length_set {y : Value} (h : v.set (.int k) x = .ok w) (hy : v.nth k = .ok y) : w.length = v.length := by
  cases v with
  | list xs =>
    obtain ⟨hk, rfl⟩ := set_list h
    rw [length, length, List.length_set]
  | dict fs =>
    obtain ⟨gs, rfl, hlength, -⟩ := set_dict h
    rw [length, length, hlength]
    intro hnone
    rw [get_dict, hnone] at hy
    cases hy
  | none | bool _ | int _ | float _ | str _ | tuple _ | object _ _ => cases h

end Value

/-! ## Changed attributes -/

namespace Assoc

variable {α : Type}

theorem insert_insert (t : List (String × α)) (k : String) (a b : α) :
    insert (insert t k a) k b = insert t k b := by
  have hcontains : contains (insert t k a) k = true := by
    by_contra hno
    have := get?_insert t k k a
    rw [if_pos rfl, (get?_eq_none_iff _ _).2 (by simpa using hno)] at this
    cases this
  rw [insert, if_pos hcontains]
  unfold insert
  split
  · rw [map_map]
    refine map_congr_left fun e _ => ?_
    by_cases he : e.1 = k <;> simp [he]
  · rename_i hno
    have hother : ∀ e ∈ t, (if e.1 == k then (k, b) else e) = e := fun e he => by
      refine if_neg fun hk => hno ?_
      exact any_eq_true.2 ⟨e, he, hk⟩
    rw [map_append, map_congr_left hother, map_id']
    simp

theorem get?_insertAll (t u : List (String × α)) (k : String) :
    get? (insertAll t u) k = (get? u.reverse k).or (get? t k) := by
  induction u generalizing t with
  | nil => rfl
  | cons e u ih =>
    rw [insertAll, foldl_cons]
    refine (ih (insert t e.1 e.2)).trans ?_
    rw [reverse_cons, get?_append, get?_insert, Option.or_assoc]
    refine congrArg _ ?_
    by_cases he : k = e.1
    · simp [get?, he]
    · have hne : ¬ e.1 = k := fun h => he h.symm
      simp [get?, he, hne]

theorem get?_reverse_insert (u : List (String × α)) (k k' : String) (a : α) :
    get? (insert u k a).reverse k' = if k' = k then some a else get? u.reverse k' := by
  unfold insert
  split
  · rename_i hk
    rw [← map_reverse, get?_replace]
    split
    · have hmem : contains u.reverse k = true := by simpa [contains] using hk
      cases hg : get? u.reverse k with
      | none => rw [(get?_eq_none_iff _ _).1 hg] at hmem; cases hmem
      | some _ => rfl
    · rfl
  · rw [reverse_append, reverse_singleton, singleton_append]
    by_cases h : k' = k
    · simp [get?, h]
    · have hne : ¬ k = k' := fun e => h e.symm
      simp [get?, h, hne]

end Assoc

namespace OpNode

/-- **An operator with changed attributes.** -/
def edited (op : OpNode) (changed : Attrs) : OpNode :=
  { op with attrs := Assoc.insertAll op.attrs changed }

instance (op : OpNode) [h : op.Plain] (changed : Attrs) : (op.edited changed).Plain := ⟨h.names⟩

theorem get?_edited_insert (op : OpNode) (changed : Attrs) (a k : String) (v : Value) :
    Assoc.get? (op.edited (Assoc.insert changed a v)).attrs k =
      if k = a then some v else Assoc.get? (op.edited changed).attrs k := by
  unfold edited
  rw [Assoc.get?_insertAll, Assoc.get?_insertAll, Assoc.get?_reverse_insert]
  split <;> rfl

end OpNode

namespace Emit

/-- **What changing an attribute does to a draft**: at most the changes of the operator are others, and
the attribute is `new` then. -/
structure Edits (attr : String) (old new : Value) (d d' : Draft) : Prop where
  only : d' = { d with edits := d'.edits }
  edits : (new = old ∧ d'.edits = d.edits) ∨ d'.edits = Assoc.insert d.edits attr new

namespace Edits

variable {attr : String} {u v w : Value} {d d' d'' : Draft}

theorem refl (attr : String) (v : Value) (d : Draft) : Edits attr v v d d := ⟨rfl, Or.inl ⟨rfl, rfl⟩⟩

theorem trans (h₁ : Edits attr u v d d') (h₂ : Edits attr v w d' d'') : Edits attr u w d d'' := by
  refine ⟨by rw [h₂.only, h₁.only], ?_⟩
  rcases h₁.edits with ⟨rfl, hsame⟩ | hedit
  · rw [← hsame]
    exact h₂.edits
  · rcases h₂.edits with ⟨rfl, hsame'⟩ | hedit'
    · exact Or.inr (hsame'.trans hedit)
    · exact Or.inr (by rw [hedit', hedit, Assoc.insert_insert])

theorem editAttr {x : PUnit} (h : EStateM.run (Emit.editAttr attr v) d = .ok x d') :
    Edits attr u v d d' := by
  obtain rfl := modify_ok h
  exact ⟨rfl, Or.inr rfl⟩

theorem attr_self (h : Edits attr u v d d') {op : OpNode} (hu : (op.edited d.edits).attr attr = u) :
    (op.edited d'.edits).attr attr = v := by
  rcases h.edits with ⟨rfl, hsame⟩ | hedit
  · rw [hsame, hu]
  · rw [OpNode.attr, hedit, op.get?_edited_insert, if_pos rfl]
    rfl

theorem get?_other (h : Edits attr u v d d') (op : OpNode) {k : String} (hk : k ≠ attr) :
    Assoc.get? (op.edited d'.edits).attrs k = Assoc.get? (op.edited d.edits).attrs k := by
  rcases h.edits with ⟨rfl, hsame⟩ | hedit
  · rw [hsame]
  · rw [hedit, op.get?_edited_insert, if_neg hk]

theorem attr_other (h : Edits attr u v d d') (op : OpNode) {k : String} (hk : k ≠ attr) :
    (op.edited d'.edits).attr k = (op.edited d.edits).attr k := by
  rw [OpNode.attr, h.get?_other op hk, OpNode.attr]

end Edits

end Emit

/-! ## Windows -/

namespace Rules

theorem clampKernel_some {padded : Value} (h : clampKernel size paddings kernel i = .ok (some padded)) :
    0 < size ∧ ∃ padding, paddings.nth i = .ok padding ∧ Value.add (.int size) padding = .ok padded := by
  unfold clampKernel at h
  split at h
  · rename_i hsize
    obtain ⟨padding, hpadding, h₁⟩ := except_bind_ok h
    obtain ⟨sum, hsum, h₂⟩ := except_bind_ok h₁
    obtain ⟨extent, -, h₃⟩ := except_bind_ok h₂
    obtain ⟨longer, -, h₄⟩ := except_bind_ok h₃
    cases longer with
    | true =>
      obtain rfl := Option.some.inj (Except.ok.inj h₄)
      exact ⟨hsize, padding, hpadding, hsum⟩
    | false => cases h₄
  · cases h

/-- Of a window only the member at its position is looked at. -/
theorem clampKernel_congr {kernel' : Value} (h : kernel.nth i = kernel'.nth i) :
    clampKernel size paddings kernel i = clampKernel size paddings kernel' i := by
  unfold clampKernel
  rw [h]

/-- **A window that has been cut needs no cut any more**, at this position. -/
theorem clampAxis_ok (h : EStateM.run (clampAxis size paddings kernel k) d = .ok v d') :
    Edits "ksize" kernel v d d' ∧ clampKernel size paddings v k = .ok none ∧
      ∀ j : Nat, j ≠ k → v.nth j = kernel.nth j := by
  obtain ⟨clamped, hclamped, h₁⟩ := computed_ok h
  cases clamped with
  | none =>
    obtain ⟨rfl, rfl⟩ := pure_ok h₁
    exact ⟨.refl _ _ _, hclamped, fun _ _ => rfl⟩
  | some padded =>
    obtain ⟨kernel', hset, h₂⟩ := computed_ok h₁
    obtain ⟨_, d₃, hedit, h₃⟩ := bind_ok h₂
    obtain ⟨rfl, rfl⟩ := pure_ok h₃
    refine ⟨.editAttr hedit, ?_, fun j hj => Value.nth_set_other hset hj⟩
    -- what was cut to is the padded size, which is not longer than itself
    obtain ⟨hsize, padding, hpadding, hsum⟩ := clampKernel_some hclamped
    obtain ⟨a, ha⟩ := Value.number?_add_int hsum
    unfold clampKernel
    rw [if_pos hsize, hpadding, Value.nth_set_self hset]
    simp only [except_ok_bind, hsum, Value.lt_self ha]
    rfl

theorem clampAxis_again (h : clampKernel size paddings kernel i = .ok none) (d : Draft) :
    EStateM.run (clampAxis size paddings kernel i) d = .ok kernel d := by
  unfold clampAxis
  rw [h]
  rfl

/-! ## Shapes -/

/-- A shape has known dimensions from position `k` up to position `k + n`. -/
def KnownFrom (shape : Value) (k n : Nat) : Prop :=
  ∀ j, k ≤ j → j < k + n → ∃ x, shape.nth j = .ok x ∧ x.same (.int (-1)) = false

/-- **After unknown dimensions have been replaced there are none.** -/
theorem knownShape_ok {shape : Value} (h : EStateM.run (knownShape k n shape) d = .ok v d') :
    Edits "shape" shape v d d' ∧ v.length = shape.length ∧ KnownFrom v k n ∧
      ∀ j : Nat, j < k → v.nth j = shape.nth j := by
  induction n generalizing k shape d with
  | zero =>
    obtain ⟨rfl, rfl⟩ := pure_ok h
    exact ⟨.refl _ _ _, rfl, fun j hle hlt => absurd hlt (Nat.not_lt.2 hle), fun _ _ => rfl⟩
  | succ n ih =>
    obtain ⟨x, hx, h₁⟩ := computed_ok h
    have hnext : ((k : Int) + 1) = ((k + 1 : Nat) : Int) := rfl
    -- the dimension at `k` is not touched any more after it has been looked at
    have hknown : ∀ {y : Value}, v.nth k = .ok y → y.same (.int (-1)) = false → KnownFrom v (k + 1) n →
        KnownFrom v k (n + 1) := by
      intro y hy hsame hrest j hle hlt
      rcases Nat.eq_or_lt_of_le hle with rfl | hlt'
      · exact ⟨y, hy, hsame⟩
      · exact hrest j hlt' (by omega)
    split at h₁
    · obtain ⟨shape', hset, h₂⟩ := computed_ok h₁
      obtain ⟨_, d₃, hedit, h₃⟩ := bind_ok h₂
      rw [hnext] at h₃
      obtain ⟨hedits, hlength, hrest, hbefore⟩ := ih h₃
      refine ⟨(Edits.editAttr hedit).trans hedits, hlength.trans (Value.length_set hset hx),
        hknown ((hbefore k (Nat.lt_succ_self k)).trans (Value.nth_set_self hset)) rfl hrest,
        fun j hj => ?_⟩
      exact (hbefore j (Nat.lt_succ_of_lt hj)).trans (Value.nth_set_other hset (Nat.ne_of_lt hj))
    · rename_i hsame
      rw [hnext] at h₁
      obtain ⟨hedits, hlength, hrest, hbefore⟩ := ih h₁
      exact ⟨hedits, hlength, hknown ((hbefore k (Nat.lt_succ_self k)).trans hx)
        (by simpa using hsame) hrest, fun j hj => hbefore j (Nat.lt_succ_of_lt hj)⟩

theorem knownShape_again {shape : Value} (h : KnownFrom shape k n) (d : Draft) :
    EStateM.run (knownShape k n shape) d = .ok shape d := by
  induction n generalizing k with
  | zero => rfl
  | succ n ih =>
    obtain ⟨x, hx, hsame⟩ := h k le_rfl (by omega)
    have hrest : KnownFrom shape (k + 1) n := fun j hle hlt => h j (by omega) (by omega)
    unfold knownShape
    rw [hx]
    change EStateM.run (if x.same (.int (-1)) = true then _ else knownShape (k + 1 : Nat) n shape) d = _
    rw [hsame]
    exact ih hrest

/-! ## Bounds -/

/-- Bounds adjusted from position `i` on. -/
def adjustedFrom (adjust : Value → Value → Except Slip (Option Value)) (axes : Value) :
    Int → List Value → Value → Except Slip Value
  | _, [], bounds => .ok bounds
  | i, b :: rest, bounds => do
    let axis ← axes.nth i
    match ← adjust axis b with
    | none => adjustedFrom adjust axes (i + 1) rest bounds
    | some b' => adjustedFrom adjust axes (i + 1) rest (← bounds.set (.int i) b')

/-- **Bounds, all of them adjusted.** -/
def adjusted (adjust : Value → Value → Except Slip (Option Value)) (axes bounds : Value) :
    Except Slip Value := do
  adjustedFrom adjust axes 0 (← bounds.members) bounds

theorem adjustBounds_ok {attr : String} {bs : List Value}
    (h : EStateM.run (adjustBounds attr adjust axes i bs bounds) d = .ok v d') :
    Edits attr bounds v d d' ∧ adjustedFrom adjust axes i bs bounds = .ok v := by
  induction bs generalizing i bounds d with
  | nil =>
    obtain ⟨rfl, rfl⟩ := pure_ok h
    exact ⟨.refl _ _ _, rfl⟩
  | cons b bs ih =>
    obtain ⟨axis, haxis, h₁⟩ := computed_ok h
    obtain ⟨changed, hchanged, h₂⟩ := computed_ok h₁
    unfold adjustedFrom
    rw [haxis]
    cases changed with
    | none =>
      obtain ⟨hedits, hrest⟩ := ih h₂
      exact ⟨hedits, by simp only [except_ok_bind, hchanged, hrest]⟩
    | some b' =>
      obtain ⟨bounds', hset, h₃⟩ := computed_ok h₂
      obtain ⟨_, d₄, hedit, h₄⟩ := bind_ok h₃
      obtain ⟨hedits, hrest⟩ := ih h₄
      exact ⟨(Edits.editAttr hedit).trans hedits, by simp only [except_ok_bind, hchanged, hset, hrest]⟩

/-- The members of a list of bounds adjusted, each along its axis, from position `k` on. -/
def adjustEach (adjust : Value → Value → Except Slip (Option Value)) (axes : Value) :
    Nat → List Value → Except Slip (List Value)
  | _, [] => .ok []
  | k, b :: rest => do
    let changed ← adjust (← axes.nth k) b
    .ok (changed.getD b :: (← adjustEach adjust axes (k + 1) rest))

theorem adjustedFrom_list (adjust : Value → Value → Except Slip (Option Value)) (axes : Value) :
    ∀ bs done : List Value, adjustedFrom adjust axes done.length bs (.list (done ++ bs)) =
      (do .ok (.list (done ++ (← adjustEach adjust axes done.length bs))) : Except Slip Value)
  | [], done => rfl
  | b :: bs, done => by
    have ih : ∀ y, adjustedFrom adjust axes (done.length + 1 : Nat) bs (.list (done ++ y :: bs)) =
        (do .ok (.list (done ++ y :: (← adjustEach adjust axes (done.length + 1) bs))) :
          Except Slip Value) := fun y => by
      simpa using adjustedFrom_list adjust axes bs (done ++ [y])
    have hset : ∀ y, (Value.list (done ++ b :: bs)).set (.int done.length) y =
        .ok (.list (done ++ y :: bs)) := fun y => by
      rw [Value.set_list_eq, if_pos (by simp)]
      simp
    rw [adjustedFrom, adjustEach]
    cases axes.nth done.length with
    | error _ => rfl
    | ok axis =>
      rw [except_ok_bind, except_ok_bind]
      cases adjust axis b with
      | error _ => rfl
      | ok changed =>
        cases changed with
        | none =>
          rw [except_ok_bind, except_ok_bind]
          refine (ih b).trans ?_
          cases adjustEach adjust axes (done.length + 1) bs <;> rfl
        | some y =>
          rw [except_ok_bind, except_ok_bind]
          dsimp only
          rw [hset, except_ok_bind]
          refine (ih y).trans ?_
          cases adjustEach adjust axes (done.length + 1) bs <;> rfl

theorem adjusted_list (adjust : Value → Value → Except Slip (Option Value)) (axes : Value)
    (xs : List Value) : adjusted adjust axes (.list xs) =
      (do .ok (.list (← adjustEach adjust axes 0 xs)) : Except Slip Value) :=
  adjustedFrom_list adjust axes xs []

theorem adjusted_list_ok {xs : List Value} : adjusted adjust axes (.list xs) = .ok v ↔
      ∃ ys, adjustEach adjust axes 0 xs = .ok ys ∧ v = .list ys := by
  rw [adjusted_list]
  cases adjustEach adjust axes 0 xs with
  | error _ => exact ⟨fun h => absurd h nofun, fun ⟨_, h, _⟩ => absurd h nofun⟩
  | ok ys =>
    constructor
    · exact fun h => ⟨ys, rfl, (Except.ok.inj h).symm⟩
    · rintro ⟨_, h, rfl⟩
      rw [← Except.ok.inj h]
      rfl

theorem length_adjustEach :
    ∀ {xs ys : List Value} {k : Nat}, adjustEach adjust axes k xs = .ok ys → ys.length = xs.length
  | [], _, _, h => by rw [← Except.ok.inj h]
  | x :: xs, _, k, h => by
    obtain ⟨axis, -, h₁⟩ := except_bind_ok h
    obtain ⟨changed, -, h₂⟩ := except_bind_ok h₁
    obtain ⟨ys, hys, h₃⟩ := except_bind_ok h₂
    rw [← Except.ok.inj h₃, length_cons, length_adjustEach hys, length_cons]

/-- Adjusting that settles at once does so for a list. -/
theorem adjustEach_again (hadjust : ∀ axis x y, adjust axis x = .ok (some y) → adjust axis y = .ok none) :
    ∀ {xs ys : List Value} {k : Nat}, adjustEach adjust axes k xs = .ok ys →
      adjustEach adjust axes k ys = .ok ys
  | [], _, _, h => by rw [← Except.ok.inj h]; rfl
  | x :: xs, _, k, h => by
    obtain ⟨axis, haxis, h₁⟩ := except_bind_ok h
    obtain ⟨changed, hchanged, h₂⟩ := except_bind_ok h₁
    obtain ⟨ys, hys, h₃⟩ := except_bind_ok h₂
    have hagain : adjust axis (changed.getD x) = .ok none := by
      cases changed with
      | none => exact hchanged
      | some y => exact hadjust _ _ _ hchanged
    rw [← Except.ok.inj h₃, adjustEach, haxis, except_ok_bind, hagain, except_ok_bind,
      adjustEach_again hadjust hys, except_ok_bind]
    rfl

theorem adjustedFrom_fixed (hset : ∀ i x w, bounds.set i x ≠ .ok w) : ∀ {bs : List Value} {i : Int},
      adjustedFrom adjust axes i bs bounds = .ok v → v = bounds
  | [], _, h => (Except.ok.inj h).symm
  | b :: bs, i, h => by
    obtain ⟨axis, -, h₁⟩ := except_bind_ok h
    obtain ⟨changed, -, h₂⟩ := except_bind_ok h₁
    cases changed with
    | none => exact adjustedFrom_fixed hset h₂
    | some y =>
      obtain ⟨w, hw, -⟩ := except_bind_ok h₂
      exact absurd hw (hset _ _ _)

/-- **Bounds that are no table** are adjusted once, and keep their number. -/
theorem adjusted_again (h : adjusted adjust axes bounds = .ok v) (htable : ∀ fields, bounds ≠ .dict fields)
    (hadjust : ∀ axis x y, adjust axis x = .ok (some y) → adjust axis y = .ok none) :
    adjusted adjust axes v = .ok v ∧ v.length = bounds.length := by
  have hfixed : (∀ i x w, bounds.set i x ≠ .ok w) → adjusted adjust axes v = .ok v ∧
      v.length = bounds.length := fun hset => by
    obtain ⟨bs, -, h₁⟩ := except_bind_ok h
    obtain rfl := adjustedFrom_fixed hset h₁
    exact ⟨h, rfl⟩
  cases bounds with
  | list xs =>
    obtain ⟨ys, hys, rfl⟩ := adjusted_list_ok.1 h
    exact ⟨adjusted_list_ok.2 ⟨ys, adjustEach_again hadjust hys, rfl⟩,
      congrArg Except.ok (length_adjustEach hys)⟩
  | dict fields => exact absurd rfl (htable fields)
  | none | bool _ | int _ | float _ | str _ | tuple _ | object _ _ =>
    exact hfixed fun _ _ _ h => nomatch h

/-- An end that has been brought to the size of its axis stays there. -/
theorem endWithin_again {shape : List Int} {axis y : Value} (h : endWithin shape axis x = .ok (some y)) :
    endWithin shape axis y = .ok none := by
  obtain ⟨a, ha, h₁⟩ := except_bind_ok h
  obtain ⟨size, hsize, h₂⟩ := except_bind_ok h₁
  obtain ⟨greater, -, h₃⟩ := except_bind_ok h₂
  have hy : y = .int size := by
    split at h₃
    · exact (Option.some.inj (Except.ok.inj h₃)).symm
    · cases h₃
  have hself : Value.gt (.int size) (.int size) = .ok false := by
    have horder : Value.order (.int size) (.int size) = .ok (some .eq) :=
      congrArg Except.ok (by simp [Number.order?])
    rw [Value.gt, horder]
    rfl
  rw [endWithin, ha, except_ok_bind, hsize, except_ok_bind, hy, hself]
  rfl

end Rules

end ModelExport
