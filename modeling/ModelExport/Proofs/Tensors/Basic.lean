import Mathlib.Data.List.GetD
import ModelExport.Proofs.RowMajor
import ModelExport.Proofs.Slices

/-!
# Proofs/Tensors/Basic — tensors and their index arithmetic

    [3, 1] with [4]        broadcast to   [3, 4]       the last axes are aligned
    [2, 6] as [2, 2, 3]    at [1, 0, 2]   is [1, 2]    both are number 8 in row-major order

A tensor has an element at every index of its shape.  Each operation of a model on tensors is given by
the shape of its result, which may fail, and by the index of the operand that an index of the result
stands for.
-/

namespace ModelExport

open List

variable {a b dims : List Nat} {α : Type*} {n : Nat}

/-- What each of several steps gives, they give together. -/
theorem mapM_of_forall₂ {β : Type*} {f : α → Option β} {xs : List α} {ys : List β}
    (h : List.Forall₂ (fun x y => f x = some y) xs ys) : xs.mapM f = some ys := by
  induction h with
  | nil => rfl
  | cons hhead _ ih => simp [hhead, ih]

theorem forall₂_of_mapM {β : Type*} {f : α → Option β} : ∀ {xs : List α} {ys : List β}, xs.mapM f = some ys →
    List.Forall₂ (fun x y => f x = some y) xs ys
  | [], ys, h => by
      obtain rfl : [] = ys := Option.some.inj h
      exact .nil
  | x :: xs, ys, h => by
      rw [mapM_cons] at h
      obtain ⟨y, hy, h⟩ := Option.bind_eq_some_iff.1 h
      obtain ⟨zs, hzs, h⟩ := Option.bind_eq_some_iff.1 h
      obtain rfl : y :: zs = ys := Option.some.inj h
      exact .cons hy (forall₂_of_mapM hzs)

theorem within_two {m : Nat} {i : List Nat} (h : List.Forall₂ (· < ·) i [m, n]) :
    ∃ a b, i = [a, b] ∧ a < m ∧ b < n := by
  match i, h with
  | [a, b], .cons ha (.cons hb .nil) => exact ⟨a, b, rfl, ha, hb⟩

theorem within_three {l m : Nat} {i : List Nat} (h : List.Forall₂ (· < ·) i [l, m, n]) :
    ∃ a b c, i = [a, b, c] ∧ a < l ∧ b < m ∧ c < n := by
  match i, h with
  | [a, b, c], .cons ha (.cons hb (.cons hc .nil)) => exact ⟨a, b, c, rfl, ha, hb, hc⟩

/-- **A tensor**: its shape, and the element at each index.  What stands beyond the shape has no meaning. -/
structure Tensor (τ : Type*) where
  shape : List Nat
  entry : List Nat → τ

namespace Tensor

variable {τ : Type*}

/-! ## Broadcasting -/

/-- A shape with axes of one element in front, up to a rank. -/
def padded (rank : Nat) (dims : List Nat) : List Nat := List.replicate (rank - dims.length) 1 ++ dims

/-- The extent that two extents broadcast to. -/
def jointExtent (a b : Nat) : Option Nat :=
  if b = 1 ∨ b = a then some a else if a = 1 then some b else none

/-- **The shape that two shapes broadcast to**, aligned at their last axes. -/
def jointShape (a b : List Nat) : Option (List Nat) :=
  ((padded b.length a).zip (padded a.length b)).mapM fun e => jointExtent e.1 e.2

/-- The shape that several shapes broadcast to. -/
def jointShapes (shapes : List (List Nat)) : Option (List Nat) := shapes.foldlM jointShape []

/-- The index that an index of a larger shape stands for: its last places, and the only element along an
axis that has one. -/
def spread (dims index : List Nat) : List Nat :=
  List.zipWith (fun d k => if d = 1 then 0 else k) dims (index.drop (index.length - dims.length))

/-- **A function applied element by element**, to tensors that broadcast to one shape. -/
def pointwise (f : List τ → τ) (ts : List (Tensor τ)) : Option (Tensor τ) :=
  (jointShapes (ts.map shape)).map fun dims =>
    ⟨dims, fun i => f (ts.map fun t => t.entry (spread t.shape i))⟩

/-- **A shape that broadcasts to a larger one**: each of its last axes is as long, or has one element. -/
def Fits (small large : List Nat) : Prop :=
  small.length ≤ large.length ∧ List.Forall₂ (fun a b => a = 1 ∨ a = b) (padded large.length small) large

theorem padded_of_le {rank : Nat} (h : rank ≤ dims.length) : padded rank dims = dims := by
  rw [padded, Nat.sub_eq_zero_of_le h, replicate_zero, nil_append]

theorem jointExtent_left {a b : Nat} (h : b = 1 ∨ b = a) : jointExtent a b = some a := if_pos h

theorem jointExtent_right {a b : Nat} (h : a = 1 ∨ a = b) : jointExtent a b = some b := by
  unfold jointExtent
  split
  · grind
  · grind

/-- A shape that fits does not change what it is broadcast with. -/
theorem jointShape_left (h : Fits b a) : jointShape a b = some a := by
  obtain ⟨hlength, hfits⟩ := h
  rw [jointShape, padded_of_le hlength]
  refine mapM_of_forall₂ ?_
  clear hlength
  generalize padded a.length b = c at hfits
  induction hfits with
  | nil => exact .nil
  | cons hhead _ ih => exact .cons (jointExtent_left hhead) ih

theorem jointShape_right (h : Fits a b) : jointShape a b = some b := by
  obtain ⟨hlength, hfits⟩ := h
  rw [jointShape, padded_of_le hlength]
  refine mapM_of_forall₂ ?_
  clear hlength
  generalize padded b.length a = c at hfits
  induction hfits with
  | nil => exact .nil
  | cons hhead _ ih => exact .cons (jointExtent_right hhead) ih

theorem forall₂_ones : ∀ dims : List Nat,
    List.Forall₂ (fun a b => a = 1 ∨ a = b) (List.replicate dims.length 1) dims
  | [] => .nil
  | _ :: dims => .cons (Or.inl rfl) (forall₂_ones dims)

/-- A shape fits if it does at the last axes. -/
theorem fits_append (front : List Nat) (h : List.Forall₂ (fun a b => a = 1 ∨ a = b) a b) :
    Fits a (front ++ b) := by
  refine ⟨by simp [h.length_eq], ?_⟩
  rw [padded, length_append, h.length_eq, Nat.add_sub_cancel]
  exact rel_append (forall₂_ones front) h

theorem fits_nil (dims : List Nat) : Fits [] dims := append_nil dims ▸ fits_append dims .nil

theorem fits_self (dims : List Nat) : Fits dims dims :=
  fits_append [] (forall₂_same.2 fun _ _ => Or.inr rfl)

/-- Within its own shape an index stands for itself. -/
theorem spread_self {index : List Nat} (h : List.Forall₂ (· < ·) index dims) : spread dims index = index := by
  rw [spread, h.length_eq, Nat.sub_self, drop_zero]
  induction h with
  | nil => rfl
  | cons hk _ ih =>
    rw [zipWith_cons_cons, ih]
    split
    · congr 1
      omega
    · rfl

theorem jointShapes_one (dims : List Nat) : jointShapes [dims] = some dims := by
  simp [jointShapes, jointShape_right (fits_nil dims)]

theorem jointShapes_two (a b : List Nat) : jointShapes [a, b] = jointShape a b := by
  simp [jointShapes, jointShape_right (fits_nil a)]

theorem jointShapes_scalars (dims : List Nat) : jointShapes [dims, [], []] = some dims := by
  simp [jointShapes, jointShape_right (fits_nil dims), jointShape_left (fits_nil dims)]

/-- **Tensors that broadcast are combined** element by element. -/
theorem pointwise_of_joint (f : List τ → τ) (ts : List (Tensor τ)) (h : jointShapes (ts.map shape) = some dims) :
    pointwise f ts = some ⟨dims, fun i => f (ts.map fun t => t.entry (spread t.shape i))⟩ := by
  rw [pointwise, h, Option.map_some]

/-! ### Elements -/

section Elements

variable {t u : Tensor τ} {dims : List Nat} {f g : List Nat → τ}

/-- **A tensor that fills a shape**: its elements within the shape. -/
def Fills (dims : List Nat) (f : List Nat → τ) (t : Tensor τ) : Prop :=
  t.shape = dims ∧ ∀ i, List.Forall₂ (· < ·) i dims → t.entry i = f i

/-- **A tensor that spreads over a shape**: its elements as they are repeated there. -/
def Spreads (dims : List Nat) (f : List Nat → τ) (t : Tensor τ) : Prop :=
  Fits t.shape dims ∧ ∀ i, List.Forall₂ (· < ·) i dims → t.entry (spread t.shape i) = f i

theorem Fills.spreads (h : Fills dims f t) : Spreads dims f t := by
  obtain ⟨rfl, hentry⟩ := h
  refine ⟨fits_self _, fun i hi => ?_⟩
  rw [spread_self hi, hentry i hi]

theorem Fills.congr (h : Fills dims f t) (hfg : ∀ i, List.Forall₂ (· < ·) i dims → f i = g i) :
    Fills dims g t := ⟨h.1, fun i hi => (h.2 i hi).trans (hfg i hi)⟩

theorem Fills.spreads_of_nil {c : τ} (h : Fills [] (fun _ => c) t) (dims : List Nat) :
    Spreads dims (fun _ => c) t := by
  obtain ⟨hshape, hentry⟩ := h
  refine ⟨hshape ▸ fits_nil dims, fun i _ => ?_⟩
  rw [hshape, spread, zipWith_nil_left, hentry [] .nil]

theorem Fills.pointwise_left (F : List τ → τ) (ht : Fills dims f t) (hu : Spreads dims g u) :
    ∃ z, pointwise F [t, u] = some z ∧ Fills dims (fun i => F [f i, g i]) z := by
  have hjoint : jointShapes ([t, u].map shape) = some dims := by
    change jointShapes [t.shape, u.shape] = some dims
    rw [jointShapes_two, ht.1, jointShape_left hu.1]
  refine ⟨_, pointwise_of_joint F [t, u] hjoint, rfl, fun i hi => ?_⟩
  change F [t.entry (spread t.shape i), u.entry (spread u.shape i)] = _
  rw [ht.spreads.2 i hi, hu.2 i hi]

theorem Fills.pointwise_right (F : List τ → τ) (ht : Spreads dims f t) (hu : Fills dims g u) :
    ∃ z, pointwise F [t, u] = some z ∧ Fills dims (fun i => F [f i, g i]) z := by
  have hjoint : jointShapes ([t, u].map shape) = some dims := by
    change jointShapes [t.shape, u.shape] = some dims
    rw [jointShapes_two, hu.1, jointShape_right ht.1]
  refine ⟨_, pointwise_of_joint F [t, u] hjoint, rfl, fun i hi => ?_⟩
  change F [t.entry (spread t.shape i), u.entry (spread u.shape i)] = _
  rw [ht.2 i hi, hu.spreads.2 i hi]

theorem Fills.pointwise_one (F : List τ → τ) (ht : Fills dims f t) :
    ∃ z, pointwise F [t] = some z ∧ Fills dims (fun i => F [f i]) z := by
  refine ⟨_, pointwise_of_joint F [t] (jointShapes_one t.shape), ht.1, fun i hi => ?_⟩
  change F [t.entry (spread t.shape i)] = _
  rw [ht.spreads.2 i hi]

end Elements

/-! ## Another shape -/

/-- The index with a number in row-major order. -/
def indexAt : List Nat → Nat → List Nat
  | [], _ => []
  | _ :: dims, n => n / dims.prod :: indexAt dims (n % dims.prod)

/-- The shape that a request stands for: zero keeps the extent at its place, and minus one takes what is
left. -/
def requestedShape (dims : List Nat) (target : List Int) : Option (List Nat) := do
  let wanted ← target.zipIdx.mapM fun e => if e.1 = 0 then (dims[e.2]?).map Int.ofNat else some e.1
  let known := ((wanted.filter (0 ≤ ·)).map Int.toNat).prod
  match wanted.filter (· < 0) with
  | [] => if known = dims.prod then some (wanted.map Int.toNat) else none
  | [-1] =>
    if known ≠ 0 ∧ known ∣ dims.prod then
      some (wanted.map fun d => if d < 0 then dims.prod / known else d.toNat)
    else none
  | _ => none

/-- **A tensor in another shape**, with its elements in the same row-major order. -/
def reshape (t : Tensor τ) (target : List Int) : Option (Tensor τ) :=
  (requestedShape t.shape target).map fun dims =>
    ⟨dims, fun i => t.entry (indexAt t.shape (Value.rowMajor dims i))⟩

theorem indexAt_rowMajor {index : List Nat} (h : List.Forall₂ (· < ·) index dims) :
    indexAt dims (Value.rowMajor dims index) = index := by
  induction h with
  | nil => rfl
  | cons _ hindex ih =>
    have hrest := rowMajor_lt hindex
    rw [Value.rowMajor, indexAt, Nat.mul_comm, Nat.mul_add_div (Nat.zero_lt_of_lt hrest), Nat.div_eq_of_lt hrest,
      Nat.add_zero, Nat.mul_add_mod, Nat.mod_eq_of_lt hrest, ih]

/-- The elements of a tensor, in row-major order. -/
def elements (t : Tensor τ) : List τ := (List.range t.shape.prod).map fun k => t.entry (indexAt t.shape k)

theorem rowMajor_indexAt : ∀ {dims : List Nat} {n : Nat}, n < dims.prod → Value.rowMajor dims (indexAt dims n) = n
  | [], n, hn => by
      obtain rfl : n = 0 := Nat.lt_one_iff.1 hn
      rfl
  | d :: dims, n, hn => by
      have hpos : 0 < dims.prod := Nat.pos_of_ne_zero fun h => by simp [h] at hn
      rw [indexAt, Value.rowMajor, rowMajor_indexAt (Nat.mod_lt n hpos), Nat.mul_comm, Nat.div_add_mod]

theorem indexAt_within : ∀ {dims : List Nat} {n : Nat}, n < dims.prod → List.Forall₂ (· < ·) (indexAt dims n) dims
  | [], _, _ => .nil
  | d :: dims, n, hn => by
      have hpos : 0 < dims.prod := Nat.pos_of_ne_zero fun h => by simp [h] at hn
      exact .cons ((Nat.div_lt_iff_lt_mul hpos).2 hn) (indexAt_within (Nat.mod_lt n hpos))

/-- Where nothing is kept, the request is what is wanted. -/
theorem mapM_wanted {target : List Int} (h : ∀ d ∈ target, d ≠ 0) :
    (target.zipIdx.mapM fun e : Int × Nat => if e.1 = 0 then (dims[e.2]?).map Int.ofNat else some e.1) =
      some target := by
  refine mapM_of_forall₂ (forall₂_iff_get.2 ⟨length_zipIdx, fun k _ hk => ?_⟩)
  have hne : target[k] ≠ 0 := h _ (getElem_mem hk)
  simp [hne]

theorem filter_neg_naturals (ns : List Nat) : (ns.map Int.ofNat).filter (· < 0) = [] := by
  refine filter_eq_nil_iff.2 fun d hd => ?_
  obtain ⟨n, -, rfl⟩ := mem_map.1 hd
  simp

theorem filter_nonneg_naturals (ns : List Nat) : (ns.map Int.ofNat).filter (0 ≤ ·) = ns.map Int.ofNat := by
  refine filter_eq_self.2 fun d hd => ?_
  obtain ⟨n, -, rfl⟩ := mem_map.1 hd
  simp

theorem naturals_ne_zero {ns : List Nat} (hpos : ∀ d ∈ ns, 0 < d) : ∀ d ∈ ns.map Int.ofNat, d ≠ 0 := by
  intro d hd
  obtain ⟨n, hn, rfl⟩ := mem_map.1 hd
  exact Int.natCast_ne_zero.2 (hpos n hn).ne'

/-- A request for positive extents, as many elements as there are, is granted as it is. -/
theorem requestedShape_of_pos {target : List Nat} (hpos : ∀ d ∈ target, 0 < d) (hprod : target.prod = dims.prod) :
    requestedShape dims (target.map Int.ofNat) = some target := by
  have hback : (target.map Int.ofNat).map Int.toNat = target :=
    (map_map ..).trans (map_id _)
  simp only [requestedShape, mapM_wanted (naturals_ne_zero hpos), Option.bind_eq_bind, Option.bind_some,
    filter_neg_naturals, filter_nonneg_naturals, hback, hprod, if_true]

/-- **A request that leaves one extent open** gets the one that makes up for the others. -/
theorem requestedShape_open {front back : List Nat} (hpos : ∀ d ∈ front ++ back, 0 < d)
    (hprod : (front ++ n :: back).prod = dims.prod) :
    requestedShape dims (front.map Int.ofNat ++ -1 :: back.map Int.ofNat) = some (front ++ n :: back) := by
  have hne : ∀ d ∈ front.map Int.ofNat ++ -1 :: back.map Int.ofNat, d ≠ 0 := by
    have hsides := naturals_ne_zero hpos
    rw [map_append] at hsides
    intro d hd
    rcases mem_append.1 hd with hd | hd
    · exact hsides d (mem_append_left _ hd)
    · rcases mem_cons.1 hd with rfl | hd
      · decide
      · exact hsides d (mem_append_right _ hd)
  have hopen : (front.map Int.ofNat ++ -1 :: back.map Int.ofNat).filter (· < 0) = [-1] := by
    rw [filter_append, filter_cons_of_pos (by decide), filter_neg_naturals, filter_neg_naturals]
    rfl
  have hknown : (((front.map Int.ofNat ++ -1 :: back.map Int.ofNat).filter (0 ≤ ·)).map Int.toNat) =
      front ++ back := by
    rw [filter_append, filter_cons_of_neg (by decide), filter_nonneg_naturals, filter_nonneg_naturals,
      ← map_append, map_map]
    exact map_id _
  have hfilled : ∀ ns : List Nat, (ns.map Int.ofNat).map (fun d => if d < 0 then n else d.toNat) = ns := fun ns => by
    rw [map_map]
    refine (map_congr_left fun k _ => ?_).trans (map_id ns)
    have hnonneg : ¬ Int.ofNat k < 0 := Int.not_lt.2 (Int.natCast_nonneg k)
    exact (if_neg hnonneg : (if Int.ofNat k < 0 then n else k) = k)
  have hrest : 0 < (front ++ back).prod := List.prod_pos_iff_forall_pos_nat.2 hpos
  have hwhole : dims.prod = (front ++ back).prod * n := by
    rw [← hprod, prod_append, prod_cons, prod_append, Nat.mul_assoc, Nat.mul_comm n]
  have hgranted : (front ++ back).prod ≠ 0 ∧ (front ++ back).prod ∣ dims.prod := ⟨hrest.ne', n, hwhole⟩
  simp only [requestedShape, mapM_wanted hne, Option.bind_eq_bind, Option.bind_some, hopen, hknown]
  rw [if_pos hgranted, hwhole, Nat.mul_div_cancel_left n hrest, map_append, map_cons, hfilled, hfilled,
    if_pos (by decide)]

/-- Another shape of as many elements keeps them, and their order. -/
theorem elements_reshaped {t : Tensor τ} (hprod : dims.prod = t.shape.prod) :
    elements ⟨dims, fun i => t.entry (indexAt t.shape (Value.rowMajor dims i))⟩ = t.elements := by
  unfold elements
  rw [← hprod]
  refine map_congr_left fun k hk => ?_
  dsimp only
  rw [rowMajor_indexAt (mem_range.1 hk)]

theorem reshape_of_pos {t : Tensor τ} (hpos : ∀ d ∈ dims, 0 < d) (hprod : dims.prod = t.shape.prod) :
    t.reshape (dims.map Int.ofNat) =
      some ⟨dims, fun i => t.entry (indexAt t.shape (Value.rowMajor dims i))⟩ := by
  rw [reshape, requestedShape_of_pos hpos hprod, Option.map_some]

theorem reshape_open {t : Tensor τ} {front back : List Nat} (hpos : ∀ d ∈ front ++ back, 0 < d)
    (hprod : (front ++ n :: back).prod = t.shape.prod) :
    t.reshape (front.map Int.ofNat ++ -1 :: back.map Int.ofNat) =
      some ⟨front ++ n :: back, fun i => t.entry (indexAt t.shape (Value.rowMajor (front ++ n :: back) i))⟩ := by
  rw [reshape, requestedShape_open hpos hprod, Option.map_some]

/-- **A tensor as a matrix**: an index along the axes before the given one is a row, one along the others a
column. -/
def flatten (t : Tensor τ) (axis : Nat) : Option (Tensor τ) :=
  if axis ≤ t.shape.length then
    let dims := [(t.shape.take axis).prod, (t.shape.drop axis).prod]
    some ⟨dims, fun i => t.entry (indexAt t.shape (Value.rowMajor dims i))⟩
  else none

/-- **The product of two matrices**, by a sum and a product of elements. -/
def matmul (sum : List τ → τ) (mul : τ → τ → τ) (t u : Tensor τ) : Option (Tensor τ) :=
  match t.shape, u.shape with
  | [m, k], [k', n] =>
    if k = k' then
      some ⟨[m, n], fun i => sum ((List.range k).map fun j =>
        mul (t.entry [i.getD 0 0, j]) (u.entry [j, i.getD 1 0]))⟩
    else none
  | _, _ => none

/-! ## Axes -/

/-- **A function of vectors applied along an axis.** -/
def along (f : List τ → List τ) (axis : Nat) (t : Tensor τ) : Tensor τ :=
  ⟨t.shape, fun i => (f ((List.range (t.shape.getD axis 0)).map fun k => t.entry (i.set axis k))).getD
    (i.getD axis 0) (t.entry i)⟩

/-- **The axes in another order**: of the result, the `k`-th is the one that `perm` has at `k`. -/
def transpose (perm : List Nat) (t : Tensor τ) : Option (Tensor τ) :=
  if perm.Perm (List.range t.shape.length) then
    some ⟨perm.map (t.shape.getD · 0), fun i =>
      t.entry ((List.range t.shape.length).map fun a => i.getD (perm.idxOf a) 0)⟩
  else none

/-- Without the places of some axes. -/
def dropAxes {α : Type*} (axes : List Nat) (xs : List α) : List α :=
  (axes.mergeSort (· ≥ ·)).foldl List.eraseIdx xs

/-- With something put in at the places that some axes have in the result. -/
def putAxes {α : Type*} (axes : List Nat) (x : α) (xs : List α) : List α :=
  (axes.mergeSort (· ≤ ·)).foldl (fun ys a => ys.insertIdx a x) xs

/-- **Axes of one element dropped.** -/
def squeeze (axes : List Nat) (t : Tensor τ) : Option (Tensor τ) :=
  if axes.Nodup ∧ ∀ a ∈ axes, t.shape[a]? = some 1 then
    some ⟨dropAxes axes t.shape, fun i => t.entry (putAxes axes 0 i)⟩
  else none

/-- **Axes of one element put in.** -/
def unsqueeze (axes : List Nat) (t : Tensor τ) : Option (Tensor τ) :=
  if axes.Nodup ∧ ∀ a ∈ axes, a < t.shape.length + axes.length then
    some ⟨putAxes axes 1 t.shape, fun i => t.entry (dropAxes axes i)⟩
  else none

@[simp] theorem dropAxes_one (a : Nat) (xs : List α) : dropAxes [a] xs = xs.eraseIdx a := by
  simp [dropAxes]

@[simp] theorem putAxes_one (a : Nat) (x : α) (xs : List α) : putAxes [a] x xs = xs.insertIdx a x := by
  simp [putAxes]

/-! ## Parts along an axis -/

/-- The part of a tensor of some extent, from a place of an axis on. -/
def part (axis start extent : Nat) (t : Tensor τ) : Tensor τ :=
  ⟨t.shape.set axis extent, fun i => t.entry (i.modify axis (· + start))⟩

def partsFrom (axis : Nat) (t : Tensor τ) : Nat → List Nat → List (Tensor τ)
  | _, [] => []
  | start, e :: extents => t.part axis start e :: partsFrom axis t (start + e) extents

/-- **A tensor split along an axis**, into parts that make up the whole. -/
def split (axis : Nat) (extents : List Nat) (t : Tensor τ) : Option (List (Tensor τ)) :=
  if t.shape[axis]? = some (extents.foldr (· + ·) 0) then some (t.partsFrom axis 0 extents) else none

/-- Two tensors joined along an axis; along the others they are as long. -/
def join (axis : Nat) (t u : Tensor τ) : Option (Tensor τ) :=
  let m := t.shape.getD axis 0
  if axis < t.shape.length ∧ t.shape.set axis 0 = u.shape.set axis 0 then
    some ⟨t.shape.set axis (m + u.shape.getD axis 0), fun i =>
      if i.getD axis 0 < m then t.entry i else u.entry (i.modify axis (· - m))⟩
  else none

/-- **Tensors joined along an axis.** -/
def concat (axis : Nat) : List (Tensor τ) → Option (Tensor τ)
  | [] => none
  | [t] => if axis < t.shape.length then some t else none
  | t :: ts => (concat axis ts).bind (t.join axis)

/-- **A tensor repeated along its axes.** -/
def tile (times : List Nat) (t : Tensor τ) : Option (Tensor τ) :=
  if times.length = t.shape.length then
    some ⟨List.zipWith (· * ·) t.shape times, fun i => t.entry (List.zipWith (· % ·) i t.shape)⟩
  else none

/-- The places that ranges select along an axis: all of them where no range is given. -/
def selected (cuts : List Cut) (rank axis size : Nat) : List Nat :=
  match cuts.find? fun c => place? rank c.axis == some axis with
  | some c => c.selects size
  | none => List.range size

/-- **Ranges cut out of a tensor**, forward and along different axes. -/
def slice (cuts : List Cut) (t : Tensor τ) : Option (Tensor τ) :=
  (cuts.mapM fun c => place? t.shape.length c.axis).bind fun axes =>
    if axes.Nodup ∧ ∀ c ∈ cuts, 0 < c.step then
      let chosen := t.shape.zipIdx.map fun e => selected cuts t.shape.length e.2 e.1
      some ⟨chosen.map List.length, fun i => t.entry (List.zipWith (fun ks k => ks.getD k 0) chosen i)⟩
    else none

theorem forall₂_partsFrom (axis : Nat) (t : Tensor τ) : ∀ (start : Nat) (extents : List Nat),
    List.Forall₂ (fun e u => u.shape = t.shape.set axis e) extents (t.partsFrom axis start extents)
  | _, [] => .nil
  | start, e :: extents => .cons rfl (forall₂_partsFrom axis t (start + e) extents)

theorem concat_units {axis : Nat} (haxis : dims[axis]? = some 1) : ∀ {ts : List (Tensor τ)}, ts ≠ [] →
    (∀ t ∈ ts, t.shape = dims) → ∃ z, concat axis ts = some z ∧ z.shape = dims.set axis ts.length ∧
      ∀ (i : List Nat) (k : Nat) (hk : k < ts.length), i[axis]? = some k →
        z.entry i = ts[k].entry (i.set axis 0)
  | [], h, _ => absurd rfl h
  | [t], _, hts => by
      obtain ⟨hlt, hone⟩ := List.getElem?_eq_some_iff.1 haxis
      have hshape : t.shape = dims := hts t mem_cons_self
      refine ⟨t, if_pos (hshape ▸ hlt), ?_, fun i k hk hi => ?_⟩
      · rw [hshape, length_singleton, ← hone, set_getElem_self]
      · obtain rfl : k = 0 := Nat.lt_one_iff.1 hk
        obtain ⟨hlt', hget⟩ := List.getElem?_eq_some_iff.1 hi
        have hself : i.set axis 0 = i := by rw [← hget, set_getElem_self]
        rw [hself]
        rfl
  | t :: u :: ts, _, hts => by
      obtain ⟨hlt, hone⟩ := List.getElem?_eq_some_iff.1 haxis
      have hshape : t.shape = dims := hts t mem_cons_self
      obtain ⟨z, hz, hzshape, hzentry⟩ := concat_units haxis (cons_ne_nil u ts)
        fun t ht => hts t (mem_cons_of_mem _ ht)
      have hextent : t.shape.getD axis 0 = 1 := by rw [hshape, getD_eq_getElem?_getD, haxis]; rfl
      have hjoined : z.shape.getD axis 0 = (u :: ts).length := by
        rw [hzshape, getD_eq_getElem?_getD, getElem?_set_self hlt]
        rfl
      have hfits : axis < t.shape.length ∧ t.shape.set axis 0 = z.shape.set axis 0 := by
        rw [hshape, hzshape, set_set]
        exact ⟨hlt, rfl⟩
      refine ⟨_, (congrArg (Option.bind · (t.join axis)) hz).trans (if_pos hfits), ?_, fun i k hk hi => ?_⟩
      · dsimp only
        rw [hshape, hjoined, ← hshape, hextent, Nat.add_comm]
        rfl
      · have hplace : i.getD axis 0 = k := by rw [getD_eq_getElem?_getD, hi]; rfl
        have hin : axis < i.length := (List.getElem?_eq_some_iff.1 hi).1
        dsimp only
        rw [hplace, hextent]
        cases k with
        | zero =>
          have hself : i.set axis 0 = i := by
            conv_lhs => rw [← (List.getElem?_eq_some_iff.1 hi).2]
            exact set_getElem_self _
          rw [if_pos Nat.zero_lt_one, hself]
          rfl
        | succ k =>
          have hmod : (i.modify axis (· - 1))[axis]? = some k := by
            rw [getElem?_modify_eq, hi]
            rfl
          have hset : (i.modify axis (· - 1)).set axis 0 = i.set axis 0 := by
            rw [modify_eq_set, set_set]
          rw [if_neg (by omega), hzentry _ k (Nat.lt_of_succ_lt_succ hk) hmod, hset]
          rfl

end Tensor

end ModelExport
