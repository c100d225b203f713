import ModelExport.Proofs.Doubles.Bounds
import ModelExport.Proofs.Doubles.Nearness
import ModelExport.Proofs.PriorBoxes.Slots
import ModelExport.Proofs.Repetition.Attributes

/-!
# Proofs/PriorBoxes/Counts — how many boxes a cell has

    sizes s₁ s₂, ratios 1 2 1/2     as given    2 · 3           and one for each pair of sizes
                                    in order    2 · (1 + 2)

Boxes are counted size by size (`exists_cellExtents`) and density by density (`exists_denseCell`); neither fails for
numbers greater than zero.  In order, the first box of a size stands for all ratios near one, so a size brings one box
for each ratio only if there is one such ratio (`perSize_eq_iff`).
-/

namespace ModelExport.Rules

open List

/-! ## Boxes of several sizes and ratios -/

theorem squareRoot_of_pos {r : Float} (hr : 0.0 < r) : squareRoot r = .ok r.sqrt := if_neg (Double.not_lt_zero hr)

theorem quotient_sqrt {r : Float} (hr : 0.0 < r) (size : Float) : quotient size r.sqrt = .ok (size / r.sqrt) :=
  if_neg (by rw [Double.beq_zero (Double.sqrt_pos hr)]; exact Bool.false_ne_true)

theorem exists_ratioExtents (size : Float) {r : Float} (hr : 0.0 < r) : ∃ e, ratioExtents size r = .ok e := by
  rw [ratioExtents, squareRoot_of_pos hr, except_ok_bind, quotient_sqrt hr]
  exact ⟨_, rfl⟩

theorem exists_betweenExtents {least greatest : Float} (hl : 0.0 < least) (hg : 0.0 < greatest) :
    ∃ e, betweenExtents least greatest = .ok e := by
  have hroot : squareRoot (least * greatest) = .ok (least * greatest).sqrt :=
    if_neg (Double.mul_not_lt_zero hl hg)
  rw [betweenExtents, hroot]
  exact ⟨_, rfl⟩

/-- How many boxes a size brings on its own. -/
def perSize (ordered : Bool) (ratios : List Float) : Nat :=
  if ordered then 1 + (ratios.filter fun r => !((r - 1.0).abs < 1e-6)).length else ratios.length

section Extents

variable {ordered : Bool} {ratios greatest : List Float}

theorem exists_sizeExtents (ordered : Bool) {least : Float} {pair : Option (Except Slip Float)}
    (hratios : ∀ r ∈ ratios, 0.0 < r) (hleast : 0.0 < least) (hpair : ∀ g ∈ pair, ∃ x, g = .ok x ∧ 0.0 < x) :
    ∃ es, sizeExtents ordered ratios least pair = .ok es ∧ es.length = perSize ordered ratios + pair.toList.length := by
  have hmap : ∀ rs : List Float, (∀ r ∈ rs, 0.0 < r) →
      ∃ es, rs.mapM (ratioExtents least) = .ok es ∧ es.length = rs.length := fun rs hrs => by
    obtain ⟨es, hes, hall⟩ := exists_mapM (P := fun _ _ => True) rs fun r hr =>
      (exists_ratioExtents least (hrs r hr)).imp fun _ he => ⟨he, trivial⟩
    exact ⟨es, hes, hall.length_eq.symm⟩
  have hbetween : ∃ es, pairExtents least pair = .ok es ∧ es.length = pair.toList.length := by
    cases pair with
    | none => exact ⟨[], rfl, rfl⟩
    | some g =>
      obtain ⟨x, rfl, hx⟩ := hpair g rfl
      obtain ⟨e, he⟩ := exists_betweenExtents hleast hx
      exact ⟨[e], by rw [pairExtents, except_ok_bind, he]; rfl, rfl⟩
  obtain ⟨between, hbetween, hone⟩ := hbetween
  cases ordered with
  | false =>
    obtain ⟨all, hall, hlength⟩ := hmap ratios hratios
    refine ⟨all ++ between, ?_, by rw [length_append, hlength, hone]; rfl⟩
    rw [sizeExtents, if_neg Bool.false_ne_true, hall, except_ok_bind, hbetween]
    rfl
  | true =>
    obtain ⟨rest, hrest, hlength⟩ := hmap (ratios.filter fun r => !((r - 1.0).abs < 1e-6))
      fun r hr => hratios r (mem_of_mem_filter hr)
    refine ⟨(least / 2.0, least / 2.0) :: between ++ rest, ?_, ?_⟩
    · rw [sizeExtents, if_pos rfl, hbetween, except_ok_bind, hrest]
      rfl
    · rw [length_append, length_cons, hlength, hone, perSize, if_pos rfl]
      omega

theorem exists_memberAt {xs : List Float} {i : Nat} (h : i < xs.length) : ∃ x ∈ xs, memberAt xs (i : Int) = .ok x := by
  refine ⟨xs[i], getElem_mem h, ?_⟩
  simp only [memberAt, Value.place?_natCast, if_pos h, getElem?_eq_getElem h]

/-- **How many boxes a cell has**: for each size its own, and one more when it is paired with another size. -/
theorem exists_cellExtents (ordered : Bool) (hratios : ∀ r ∈ ratios, 0.0 < r) (hgreatest : ∀ s ∈ greatest, 0.0 < s)
    {least : List Float} {i : Nat} (hleast : ∀ s ∈ least, 0.0 < s)
    (hpaired : greatest = [] ∨ i + least.length ≤ greatest.length) :
    ∃ es, cellExtents ordered ratios greatest i least = .ok es ∧
      es.length = least.length * (perSize ordered ratios + if greatest = [] then 0 else 1) := by
  induction least generalizing i with
  | nil => exact ⟨[], rfl, (Nat.zero_mul _).symm⟩
  | cons s rest ih =>
    rw [length_cons] at hpaired
    obtain ⟨hs, hrest⟩ := forall_mem_cons.1 hleast
    obtain ⟨there, hthere, hlength⟩ := ih (i := i + 1) hrest (hpaired.imp_right (by omega))
    have hpair : ∀ g ∈ (if greatest.isEmpty then none else some (memberAt greatest i)), ∃ x, g = .ok x ∧ 0.0 < x := by
      intro g hg
      split at hg
      · cases hg
      · rename_i hsome
        have hroom := hpaired.resolve_left (by simpa using hsome)
        obtain ⟨x, hx, hat⟩ := exists_memberAt (show i < greatest.length by omega)
        exact ⟨x, (Option.some.inj hg).symm.trans hat, hgreatest x hx⟩
    obtain ⟨here, hhere, hcount⟩ := exists_sizeExtents ordered hratios hs hpair
    refine ⟨here ++ there, ?_, ?_⟩
    · rw [cellExtents, hhere, except_ok_bind, hthere]
      rfl
    · have hone : (if greatest.isEmpty then none else some (memberAt greatest i)).toList.length =
          if greatest = [] then 0 else 1 := by
        cases greatest <;> rfl
      rw [length_append, hcount, hone, hlength, length_cons, Nat.succ_mul, Nat.add_comm]

theorem one_near : (1.0 - 1.0 : Float).abs < 1e-6 := Double.lt_iff.2 rfl

/-- A size brings at most one box for each ratio. -/
theorem perSize_le (ordered : Bool) (rest : List Float) : perSize ordered (1.0 :: rest) ≤ (1.0 :: rest).length := by
  unfold perSize
  split
  · rw [filter_cons_of_neg (by simp [one_near]), Nat.add_comm, length_cons]
    exact Nat.succ_le_succ (length_filter_le ..)
  · exact le_rfl

/-- **A size brings one box for each ratio if and only if** its boxes are not in order, or no ratio but the first is
near one. -/
theorem perSize_eq_iff {rest : List Float} (hrest : ∀ r ∈ rest, 0.0 < r) :
    perSize ordered (1.0 :: rest) = (1.0 :: rest).length ↔ (ordered = true → ∀ r ∈ rest, ¬ NearOne r) := by
  cases ordered with
  | false => exact iff_of_true rfl nofun
  | true =>
    rw [perSize, if_pos rfl, filter_cons_of_neg (by simp [one_near]), Nat.add_comm, length_cons,
      Nat.add_right_cancel_iff, length_filter_eq_length_iff]
    refine Iff.trans (forall₂_congr fun r hr => ?_) ⟨fun h _ => h, fun h => h rfl⟩
    rw [Bool.not_eq_true', decide_eq_false_iff_not, Double.abs_sub_one_lt_iff (hrest r hr)]

end Extents

def floats (xs : List Float) : Value := .list (xs.map .float)

theorem exists_nearRatio (r : Float) (known : List Float) :
    ∃ near, nearRatio (.float r) (known.map .float) = .ok near := by
  induction known with
  | nil => exact ⟨false, rfl⟩
  | cons s known ih =>
    obtain ⟨near, hnear⟩ : ∃ near, (ratioDistance (.float r) (.float s) >>= (·.lt (.float 1e-6))) = .ok near := ⟨_, rfl⟩
    have hstep : nearRatio (.float r) (.float s :: known.map .float) =
        (ratioDistance (.float r) (.float s) >>= (·.lt (.float 1e-6))) >>= fun near =>
          if near then .ok true else nearRatio (.float r) (known.map .float) := rfl
    rw [map_cons, hstep, hnear, except_ok_bind]
    split
    · exact ⟨true, rfl⟩
    · exact ih

/-- **The ratios in use** are those that are known, followed by others greater than zero. -/
theorem exists_expandRatios (flip : Bool) {given : List Float} (known : List Float)
    (hgiven : ∀ r ∈ given, 0.0 < r ∧ r.isFinite = true) : ∃ more,
      expandRatios flip (known.map .float) (given.map .float) = .ok ((known ++ more).map .float) ∧
        ∀ r ∈ more, 0.0 < r := by
  induction given generalizing known with
  | nil => exact ⟨[], by rw [append_nil]; rfl, forall_mem_nil _⟩
  | cons r given ih =>
    obtain ⟨⟨hr, hfinite⟩, hrest⟩ := forall_mem_cons.1 hgiven
    obtain ⟨near, hnear⟩ := exists_nearRatio r known
    have hadded : ∀ added : List Float, (∀ s ∈ added, 0.0 < s) → ∃ more,
        expandRatios flip ((known ++ added).map .float) (given.map .float) = .ok ((known ++ more).map .float) ∧
          ∀ s ∈ more, 0.0 < s := fun added hadded => by
      obtain ⟨more, hmore, hpos⟩ := ih (known ++ added) hrest
      exact ⟨added ++ more, by rw [hmore, append_assoc], forall_mem_append.2 ⟨hadded, hpos⟩⟩
    rw [map_cons, expandRatios, hnear, except_ok_bind]
    split
    · exact ih known hrest
    · split
      · have hdiv : Value.div (.float 1.0) (.float r) = .ok (.float (1.0 / r)) :=
          if_neg (by rw [Double.beq_zero hr]; exact Bool.false_ne_true)
        rw [hdiv, except_ok_bind]
        have hboth := hadded [r, 1.0 / r] (by simpa using ⟨hr, Double.one_div_pos hr hfinite⟩)
        rwa [map_append] at hboth
      · have hone := hadded [r] (by simpa using hr)
        rwa [map_append] at hone

/-! ## Dense boxes -/

/-- How many boxes a cell has: for each density its square, as often as there are ratios. -/
def denseCount (densities : List Nat) (ratios : Nat) : Nat := (densities.map fun d => ratios * (d * d)).sum

section Dense

variable {densities : List Nat} {sizes ratios : List Float}

theorem addDensity_eq (total d : Nat) :
    addDensity (floats ratios) (.int total) (.int d) = .ok (.int (total + ratios.length * (d * d) : Nat)) := by
  have hlength : (floats ratios).length = .ok ratios.length := congrArg Except.ok (length_map _)
  rw [addDensity, hlength, except_ok_bind]
  split
  · rename_i hzero
    rw [beq_iff_eq.1 hzero, Nat.zero_mul, Nat.add_zero]
  · exact congrArg (Except.ok ∘ Value.int) (by push_cast; rfl)

theorem foldlM_addDensity (densities : List Nat) (total : Nat) :
    ((densities.map Int.ofNat).map Value.int).foldlM (addDensity (floats ratios)) (.int total) =
      .ok (.int (total + denseCount densities ratios.length : Nat)) := by
  induction densities generalizing total with
  | nil => rfl
  | cons d densities ih =>
    rw [map_cons, map_cons, foldlM_cons, Int.ofNat_eq_natCast, addDensity_eq, except_ok_bind, ih,
      denseCount, denseCount, map_cons, sum_cons, Nat.add_assoc]

theorem densePriors_eq (hlength : densities.length = sizes.length) :
    densePriors (floats sizes) (.ints (densities.map Int.ofNat)) (floats ratios) =
      .ok (.int (denseCount densities ratios.length)) := by
  have hsizes : (floats sizes).length = .ok sizes.length := congrArg Except.ok (length_map _)
  have hdensities : (Value.ints (densities.map Int.ofNat)).length = .ok densities.length :=
    congrArg Except.ok ((length_map _).trans (length_map _))
  have hnone : ∀ n : Nat, (n == 0) = true → n = densities.length →
      Value.int 0 = .int (denseCount densities ratios.length) := fun n hn hlength => by
    rw [length_eq_zero_iff.1 (hlength.symm.trans (beq_iff_eq.1 hn))]
    rfl
  rw [densePriors, hsizes, except_ok_bind]
  split
  · exact congrArg Except.ok (hnone _ ‹_› hlength.symm)
  · rw [hdensities, except_ok_bind]
    split
    · exact congrArg Except.ok (hnone _ ‹_› rfl)
    · exact (foldlM_addDensity densities 0).trans (by rw [Nat.zero_add])

theorem exists_denseBoxes (g : Grid) (x y size : Float) {average : Int} {density : Nat} {r : Float}
    (haverage : average.natAbs < 2 ^ 200) (hdensity : 0 < density) (hr : 0.0 < r) :
    ∃ bs, denseBoxes g x y average density (.float size) (.float r) = .ok bs ∧ bs.length = density * density := by
  obtain ⟨q, hdiv, hq⟩ := Double.exists_div (b := density) haverage (by omega) (by decide)
  obtain ⟨shift, hshift, -⟩ := Double.exists_truncate (k := 204) hq
  have hint : (Value.float q).toInt = .ok shift := hshift
  have hratio : double (.float r) = .ok r := rfl
  have hsize : double (.float size) = .ok size := rfl
  rw [denseBoxes, hdiv, except_ok_bind, hint, except_ok_bind, hratio, except_ok_bind, squareRoot_of_pos hr,
    except_ok_bind, hsize, except_ok_bind, quotient_sqrt hr]
  refine ⟨_, rfl, ?_⟩
  rw [length_flatMap]
  simp only [length_map, length_upTo, map_const', sum_replicate_nat, Int.toNat_natCast]

theorem exists_densityBoxes (g : Grid) (x y size : Float) {average : Int} {density : Nat}
    (haverage : average.natAbs < 2 ^ 200) (hdensity : 0 < density) (hratios : ∀ r ∈ ratios, 0.0 < r) :
    ∃ parts, densityBoxes g x y average (floats ratios) (.int density) (.float size) = .ok parts ∧
      parts.flatten.length = ratios.length * (density * density) := by
  have hlength : (floats ratios).length = .ok ratios.length := congrArg Except.ok (length_map _)
  rw [densityBoxes, hlength, except_ok_bind]
  split
  · rename_i hzero
    exact ⟨[], rfl, by rw [beq_iff_eq.1 hzero, Nat.zero_mul]; rfl⟩
  · obtain ⟨parts, hparts, hall⟩ := exists_mapM ratios fun r hr =>
      exists_denseBoxes g x y size haverage hdensity (hratios r hr)
    have hmap : (ratios.map Value.float).mapM
        (fun r => do denseBoxes g x y average (← (Value.int density).exact) (.float size) r) = .ok parts := by
      rw [mapM_map]
      exact hparts
    refine ⟨parts, hmap, ?_⟩
    rw [length_flatten_of_forall₂ hall, map_const', sum_replicate_nat]

/-- **How many boxes a cell has.** -/
theorem exists_denseCell (g : Grid) (x y : Float) {average : Int} (haverage : average.natAbs < 2 ^ 200)
    (hdensities : ∀ d ∈ densities, 0 < d) (hratios : ∀ r ∈ ratios, 0.0 < r)
    (hlength : densities.length = sizes.length) :
    ∃ bs, denseCell g x y average (.ints (densities.map Int.ofNat)) (floats sizes) (floats ratios) = .ok bs ∧
      bs.length = denseCount densities ratios.length := by
  obtain ⟨parts, hparts, hall⟩ := exists_mapM (densities.zip sizes) fun p hp =>
    exists_densityBoxes g x y p.2 haverage (hdensities p.1 (of_mem_zip hp).1) hratios
  have hmembers : (Value.ints (densities.map Int.ofNat)).members = .ok (densities.map fun d : Nat => .int d) :=
    congrArg Except.ok map_map
  have hsizes : (floats sizes).members = .ok (sizes.map .float) := rfl
  have hzip : (densities.map fun d : Nat => Value.int d).zip (sizes.map Value.float) =
      (densities.zip sizes).map (Prod.map (fun d : Nat => Value.int d) Value.float) := zip_map
  have hmap : ((densities.zip sizes).map (Prod.map (fun d : Nat => Value.int d) Value.float)).mapM
      (fun p => densityBoxes g x y average (floats ratios) p.1 p.2) = .ok parts := by
    rw [mapM_map]
    exact hparts
  have hfirst : ((densities.zip sizes).map fun p => ratios.length * (p.1 * p.1)) =
      densities.map fun d => ratios.length * (d * d) := by
    have hfst := congrArg (List.map fun d => ratios.length * (d * d)) (map_fst_zip hlength.le)
    rw [map_map] at hfst
    exact hfst
  refine ⟨parts.flatten.flatten, ?_, ?_⟩
  · rw [denseCell, hmembers, except_ok_bind, hsizes, except_ok_bind, hzip]
    dsimp only
    rw [hmap]
    rfl
  · rw [flatten_flatten, length_flatten_of_forall₂ (forall₂_map_right_iff.2 hall), hfirst, denseCount]

end Dense

end ModelExport.Rules
