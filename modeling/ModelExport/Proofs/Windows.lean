import Mathlib.Data.Rat.Floor
import Mathlib.Order.Interval.Set.LinearOrder
import Mathlib.Tactic.Linarith
import Mathlib.Tactic.LinearCombination
import ModelExport.Proofs.Emission.Asked
import ModelExport.Proofs.Repetition.Attributes

/-!
# Proofs/Windows — adaptive windows and the fixed windows that stand for them

    n = 6, m = 4     adaptive   [0 1] · [1 2] · [3 4] · [4 5]          length 2
                     fixed      [0 1 2] · [1 2 3] · [2 3 4] · [3 4 5]   stride 1, length 3

An adaptive pool is emitted with one stride and one kernel along each axis.  Its windows have one length
whenever the rest of `n` divides `m` (`sameSpanExactly_iff`), but they are those of the emitted node only
when the rest is at most one (`fixedWindow_eq_iff`): with a greater rest they start at uneven distances.
-/

namespace ModelExport

open Emit List Rules

/-! ## Windows -/

def placesFrom (first last : Int) : Set Int := {k | first ≤ k ∧ k < last}

theorem placesFrom_eq_iff {first last first' last' : Int} (h : first < last) :
    placesFrom first last = placesFrom first' last' ↔ first = first' ∧ last = last' :=
  Set.Ico_eq_Ico_iff (Or.inl h)

/-- **The `i`-th of `m` adaptive windows over `n` elements.** -/
def adaptiveWindow (n m : Int) (i : Nat) : Set Int :=
  placesFrom ⌊(i * n / m : ℚ)⌋ ⌈((i + 1 : ℕ) * n / m : ℚ)⌉

/-- Have all adaptive windows one length, with exact quotients? -/
def sameSpanExactly (n m : Int) : Bool :=
  spansAgree (fun i => ⌊(i * (n / m) : ℚ)⌋) (fun i => ⌈((i + 1 : ℕ) * (n / m) : ℚ)⌉) m.toNat

def fixedWindow (stride kernel : Int) (i : Nat) : Set Int := placesFrom (i * stride) (i * stride + kernel)

theorem spansAgree_iff {first last : Nat → Int} {m : Nat} (hm : 0 < m) :
    spansAgree first last m = true ↔ ∀ i < m, last i - first i = last 0 - first 0 := by
  obtain ⟨k, rfl⟩ := Nat.exists_eq_add_one.2 hm
  rw [spansAgree, range_succ_eq_map]
  simp only [map_cons, map_map, all_map, all_eq_true, mem_range, Function.comp_apply,
    beq_iff_eq]
  refine ⟨fun h i hi => ?_, fun h i hi => h (i + 1) (Nat.succ_lt_succ hi)⟩
  cases i with
  | zero => rfl
  | succ i => exact h i (Nat.lt_of_succ_lt_succ hi)

section Quotients

variable {n m : Int}

theorem floor_mul_div (hm : 0 < m) (i : Nat) : ⌊(i * n / m : ℚ)⌋ = i * (n / m) + i * (n % m) / m := by
  obtain ⟨k, rfl⟩ := Int.eq_ofNat_of_zero_le hm.le
  have hfloor := Rat.floor_intCast_div_natCast (i * n) k
  push_cast at hfloor ⊢
  rw [hfloor, add_comm, ← Int.add_mul_ediv_right _ _ hm.ne']
  congr 1
  linear_combination (-(i : Int)) * (Int.mul_ediv_add_emod n k)

theorem ceil_mul_div (hm : 0 < m) (i : Nat) : ⌈(i * n / m : ℚ)⌉ = i * (n / m) - -(i * (n % m)) / m := by
  obtain ⟨k, rfl⟩ := Int.eq_ofNat_of_zero_le hm.le
  have hceil := Rat.ceil_intCast_div_natCast (i * n) k
  push_cast at hceil ⊢
  rw [hceil, ← neg_inj, neg_neg, neg_sub, sub_eq_add_neg, ← neg_mul, ← Int.add_mul_ediv_right _ _ hm.ne']
  congr 1
  linear_combination (i : Int) * (Int.mul_ediv_add_emod n k)

/-- Between two neighbouring multiples of `r` there is no multiple of `m`, or the second is not beyond it. -/
theorem ceil_step_iff {r : Int} (hm : 0 < m) (hr : 0 < r) (i : Nat) :
    -(-((i + 1 : ℕ) * r) / m) = i * r / m + 1 ↔ (i + 1) * r ≤ m * (i * r / m + 1) := by
  have hlow := Int.mul_ediv_self_le (x := i * r) hm.ne'
  push_cast
  constructor
  · intro h
    have hceil := Int.mul_ediv_self_le (x := -((i + 1) * r)) hm.ne'
    rw [show -((i + 1) * r) / m = -(i * r / m + 1) by linarith, mul_neg] at hceil
    linarith
  · intro h
    have hquot : -((i + 1) * r) / m = -(i * r / m + 1) := by
      rw [Int.ediv_eq_iff_of_pos hm]
      constructor <;> nlinarith
    rw [hquot, neg_neg]

/-- **Every step is over one multiple of `m` at most if and only if steps end at `m`.** -/
theorem steps_iff_dvd {r : Int} (hr : 0 < r) (hrm : r < m) :
    (∀ i < m.toNat, -(-((i + 1 : ℕ) * r) / m) = i * r / m + 1) ↔ r ∣ m := by
  have hm : 0 < m := hr.trans hrm
  constructor
  · intro h
    by_contra hdvd
    -- the step over `m` itself starts from the last multiple of `r` below it
    have hrest : 0 < m % r := lt_of_le_of_ne (Int.emod_nonneg m hr.ne') fun hzero =>
      hdvd (Int.dvd_of_emod_eq_zero hzero.symm)
    have hover := Int.emod_lt_of_pos m hr
    have hsplit := Int.mul_ediv_add_emod m r
    have hquot : 0 ≤ m / r := Int.ediv_nonneg hm.le hr.le
    have htwo : 2 ≤ r := by
      by_contra hone
      obtain rfl : r = 1 := by omega
      exact hdvd (one_dvd m)
    have hi : (m / r).toNat < m.toNat := by
      have : m / r < m := Int.ediv_lt_self_of_pos_of_ne_one hm (by omega)
      omega
    have hcast : ((m / r).toNat : Int) = m / r := Int.toNat_of_nonneg hquot
    have hstep := (ceil_step_iff hm hr (m / r).toNat).1 (h _ hi)
    have hzero : m / r * r / m = 0 := Int.ediv_eq_zero_of_lt (by positivity) (by linarith)
    rw [hcast, hzero] at hstep
    linarith
  · rintro ⟨c, hc⟩ i -
    rw [ceil_step_iff hm hr]
    have hnext := Int.lt_mul_ediv_self_add (x := i * r) hm
    have hmore : (i : Int) < c * (i * r / m + 1) := by
      refine lt_of_mul_lt_mul_left (a := r) ?_ hr.le
      calc r * i = i * r := mul_comm _ _
        _ < m * (i * r / m) + m := hnext
        _ = r * (c * (i * r / m + 1)) := by rw [← mul_assoc, ← hc]; ring
    calc (i + 1) * r ≤ c * (i * r / m + 1) * r := mul_le_mul_of_nonneg_right hmore hr.le
      _ = m * (i * r / m + 1) := by rw [hc]; ring

/-- **Exact windows have one length if and only if the remainder divides the number of windows**, or there
is none. -/
theorem sameSpanExactly_iff (hm : 0 < m) : sameSpanExactly n m = true ↔ n % m = 0 ∨ n % m ∣ m := by
  have hspan : ∀ i : Nat, ⌈((i + 1 : ℕ) * (n / m) : ℚ)⌉ - ⌊(i * (n / m) : ℚ)⌋ =
      n / m + (-(-((i + 1 : ℕ) * (n % m)) / m) - i * (n % m) / m) := fun i => by
    rw [← mul_div_assoc, ← mul_div_assoc, ceil_mul_div hm, floor_mul_div hm]
    push_cast
    ring
  rw [sameSpanExactly, spansAgree_iff (by omega)]
  simp only [hspan]
  have hlt := Int.emod_lt_of_pos n hm
  rcases (Int.emod_nonneg n hm.ne').eq_or_lt with hzero | hpos
  · simp [← hzero]
  · have hfirst : -(-((0 + 1 : ℕ) * (n % m)) / m) - (0 : ℕ) * (n % m) / m = 1 := by
      have hquot : -(n % m) / m = -1 := by
        rw [Int.ediv_eq_iff_of_pos hm]
        constructor <;> linarith
      simp [hquot]
    rw [hfirst, or_iff_right hpos.ne', ← steps_iff_dvd hpos hlt]
    refine forall₂_congr fun i _ => ?_
    constructor <;> intro h <;> linarith

theorem adaptiveStride_eq (hn : 0 < n) : adaptiveStride n m = n / m := Int.tdiv_eq_ediv_of_nonneg hn.le

/-- The kernel has the whole rest in it. -/
theorem adaptiveKernel_eq (hn : 0 < n) : adaptiveKernel n m = n / m + n % m := by
  rw [adaptiveKernel, adaptiveStride_eq hn]
  linear_combination -Int.mul_ediv_add_emod n m

theorem adaptiveKernel_pos (hn : 0 < n) (hm : 0 < m) : 0 < adaptiveKernel n m := by
  have hquot := Int.ediv_nonneg hn.le hm.le
  have hrest := Int.emod_nonneg n hm.ne'
  have hsplit := Int.mul_ediv_add_emod n m
  rw [adaptiveKernel_eq hn]
  by_contra hnone
  rw [show n / m = 0 by omega, show n % m = 0 by omega] at hsplit
  omega

/-- The `i`-th window is exact when the rest has not moved its start, and is in it as a whole. -/
theorem fixedWindow_eq_iff_at (hn : 0 < n) (hm : 0 < m) (i : Nat) :
    fixedWindow (adaptiveStride n m) (adaptiveKernel n m) i = adaptiveWindow n m i ↔
      i * (n % m) / m = 0 ∧ -(-((i + 1 : ℕ) * (n % m)) / m) = n % m := by
  have hpos := adaptiveKernel_pos hn hm
  rw [fixedWindow, adaptiveWindow, placesFrom_eq_iff (by linarith), floor_mul_div hm, ceil_mul_div hm,
    adaptiveStride_eq hn, adaptiveKernel_eq hn]
  push_cast
  constructor <;> rintro ⟨hlow, hhigh⟩ <;> constructor <;> linarith

/-- **Fixed windows are exact if and only if the rest is at most one.** -/
theorem fixedWindow_eq_iff (hn : 0 < n) (hm : 0 < m) :
    (∀ i < m.toNat, fixedWindow (adaptiveStride n m) (adaptiveKernel n m) i = adaptiveWindow n m i) ↔
      n % m ≤ 1 := by
  have hlt := Int.emod_lt_of_pos n hm
  simp only [fixedWindow_eq_iff_at hn hm]
  constructor
  · intro h
    -- the first window already has the whole rest in it, where one element is to be added
    obtain ⟨-, hhigh⟩ := h 0 (by omega)
    by_contra hmore
    have hquot : -((0 + 1 : ℕ) * (n % m)) / m = -1 := by
      rw [Int.ediv_eq_iff_of_pos hm]
      push_cast
      constructor <;> linarith
    rw [hquot] at hhigh
    omega
  · intro hone i hi
    rcases (Int.emod_nonneg n hm.ne').eq_or_lt with hzero | hpos
    · simp [← hzero]
    · obtain hunit : n % m = 1 := by omega
      have hlow : (i : Int) / m = 0 := Int.ediv_eq_zero_of_lt (by omega) (by omega)
      have hhigh : -((i + 1 : ℕ) : Int) / m = -1 := by
        rw [Int.ediv_eq_iff_of_pos hm]
        constructor <;> omega
      rw [hunit, mul_one, mul_one, hlow, hhigh]
      exact ⟨rfl, rfl⟩

end Quotients

/-! ## Adaptive pools -/

/-- **The `i`-th window of a pool** along an axis of its plane, for nodes that put no padding around it. -/
def Node.window (n : Node) (axis i : Nat) : Option (Set Int) := do
  let stride ← ((n.attr "strides").nth axis).toOption.bind Value.int?
  let kernel ← ((n.attr "kernel_shape").nth axis).toOption.bind Value.int?
  if (n.attr "auto_pad").same (.str "SAME_UPPER") then none else some (fixedWindow stride kernel i)

/-- The sizes of an adaptive pool: batch and channels, and the planes before and after. -/
structure PoolSizes where
  batch : Int
  channels : Int
  height : Int
  width : Int
  outHeight : Int
  outWidth : Int
  channels_pos : 0 < channels
  height_pos : 0 < height
  width_pos : 0 < width
  outHeight_pos : 0 < outHeight
  outWidth_pos : 0 < outWidth

namespace PoolSizes

def dims (s : PoolSizes) : List Int := [s.batch, s.channels, s.height, s.width]

def outDims (s : PoolSizes) : List Int := [s.batch, s.channels, s.outHeight, s.outWidth]

def refusal (s : PoolSizes) : Refusal :=
  .adaptivePool (.tuple (s.dims.map .int)) (.tuple (s.outDims.map .int))

def agree (s : PoolSizes) : Bool := sameSpan s.height s.outHeight && sameSpan s.width s.outWidth

end PoolSizes

/-- **An operator that pools adaptively**, without padding, by nodes of a type. -/
structure OpNode.PoolsAdaptively (op : OpNode) (x y type : String) (s : PoolSizes) : Prop
    extends op.Links "X" x y s.dims s.outDims where
  kind : ∃ whole, poolTypes (op.attr "pooling_type") = .ok (type, whole)
  partly : (op.attr "global_pooling").truthy = false
  adaptive : (op.attr "adaptive").truthy = true
  ksize : (op.attr "ksize").same (.ints [1, 1]) = false
  unpadded : (op.attr "padding_algorithm").same (.str "SAME") = false

def PoolSizes.attrs (s : PoolSizes) (op : OpNode) (version : Int) : Attrs :=
  [("kernel_shape", .tuple [.int (adaptiveKernel s.height s.outHeight),
      .int (adaptiveKernel s.width s.outWidth)]),
    ("strides", .tuple [.int (adaptiveStride s.height s.outHeight),
      .int (adaptiveStride s.width s.outWidth)])] ++
  (if version > 10 then [("ceil_mode", op.attr "ceil_mode")] else []) ++
  paddingAttrs (op.attr "padding_algorithm") [] ++ averageAttrs op

theorem PoolSizes.attrs_not_reserved (s : PoolSizes) (op : OpNode) (version : Int) :
    ∀ a ∈ s.attrs op version, a.1 ∉ Node.reserved := by
  intro a ha
  simp only [attrs, paddingAttrs, averageAttrs, mem_append, mem_cons, not_mem_nil, or_false,
    or_assoc] at ha
  rcases ha with rfl | rfl | ha | ha | ha
  · simp [Node.reserved]
  · simp [Node.reserved]
  · split at ha <;> simp_all [Node.reserved]
  · split_ifs at ha <;> simp_all [Node.reserved]
  · split at ha <;> simp_all [Node.reserved]

namespace PoolSizes

theorem requireStatic_dims (s : PoolSizes) : requireStatic s.dims = .ok () := by
  have hheight := s.height_pos
  have hwidth := s.width_pos
  have hchannels := s.channels_pos
  have hknown : ¬ (-1 : Int) ∈ [s.channels, s.height, s.width] := by
    simp only [mem_cons, not_mem_nil, or_false]
    omega
  simpa [requireStatic, dims] using hknown

theorem not_agree (s : PoolSizes) :
    (!sameSpan s.height s.outHeight || !sameSpan s.width s.outWidth) = !s.agree :=
  (Bool.not_and _ _).symm

theorem out_ne_zero (s : PoolSizes) : ¬ (s.outHeight == 0 || s.outWidth == 0) = true := by
  have hheight := s.outHeight_pos
  have hwidth := s.outWidth_pos
  simp only [Bool.or_eq_true, beq_iff_eq]
  omega

end PoolSizes

section Pools

variable {op : OpNode} {x y type : String} {s : PoolSizes}

theorem pool_eq_adaptivePool (h : op.PoolsAdaptively x y type s) : pool op = adaptivePool op := by
  unfold pool
  rw [h.partly, h.adaptive, h.ksize]
  rfl

theorem emission_adaptivePool (h : op.PoolsAdaptively x y type s) (d : Draft)
    (hceil : (op.attr "ceil_mode").truthy = true → 10 ≤ d.opset) (hagree : s.agree = true) :
    let n := Node.asked type (d.count type) [.str x] [.str y] (s.attrs op d.opset)
    Emission (adaptivePool op) d (d.adding n) () [n] := by
  intro n
  obtain ⟨whole, hkind⟩ := h.kind
  have hspan : ¬ (!sameSpan s.height s.outHeight || !sameSpan s.width s.outWidth) = true := by
    simp [s.not_agree, hagree]
  have hversion : ¬ ((op.attr "ceil_mode").truthy && decide (d.opset < 10)) = true := by
    simpa using hceil
  refine .computed h.inputShape (.granted s.requireStatic_dims (.computed rfl ?_))
  refine .computed h.outputShape (.computed rfl ?_)
  dsimp only
  rw [if_neg s.out_ne_zero, if_neg hspan]
  refine .versioned ?_
  rw [if_neg hversion]
  refine .computed hkind ?_
  rw [h.input_eq]
  exact emission_result h.toLinks d rfl (Or.inr (s.attrs_not_reserved op d.opset))

theorem run_adaptivePool_refused (h : op.PoolsAdaptively x y type s) (d : Draft) (hagree : s.agree = false) :
    EStateM.run (adaptivePool op) d = .error (.refusal s.refusal) d := by
  have hspan : (!sameSpan s.height s.outHeight || !sameSpan s.width s.outWidth) = true := by
    simp [s.not_agree, hagree]
  refine (run_computed h.inputShape _ d).trans ((run_granted s.requireStatic_dims _ d).trans ?_)
  refine (run_computed rfl _ d).trans ((run_computed h.outputShape _ d).trans ?_)
  refine (run_computed rfl _ d).trans ?_
  dsimp only
  rw [if_neg s.out_ne_zero, if_pos hspan]
  rfl

/-- **The windows of the node for an adaptive pool.** -/
theorem window_asked (h : op.PoolsAdaptively x y type s) (version : Int) (k i : Nat) (ins outs : List Value) :
    let n := Node.asked type k ins outs (s.attrs op version)
    n.window 0 i =
        some (fixedWindow (adaptiveStride s.height s.outHeight) (adaptiveKernel s.height s.outHeight) i) ∧
      n.window 1 i =
        some (fixedWindow (adaptiveStride s.width s.outWidth) (adaptiveKernel s.width s.outWidth) i) := by
  intro n
  have hpad : ¬ (n.attr "auto_pad").same (.str "SAME_UPPER") = true := by
    change ¬ ((Assoc.get? (s.attrs op version) "auto_pad").getD .none).same (.str "SAME_UPPER") = true
    simp only [PoolSizes.attrs, paddingAttrs, h.unpadded, averageAttrs, Bool.false_eq_true, if_false]
    split_ifs <;> simp [Assoc.get?, Value.same, Value.isNone]
  constructor
  · change (if (n.attr "auto_pad").same (.str "SAME_UPPER") then none else some (fixedWindow _ _ i)) = _
    rw [if_neg hpad]
  · change (if (n.attr "auto_pad").same (.str "SAME_UPPER") then none else some (fixedWindow _ _ i)) = _
    rw [if_neg hpad]

end Pools

/-- **An adaptive pool is converted if its windows have one length, and right if and only if the rests of
its sizes are at most one.**  With exact quotients the windows along an axis have one length if and only if
its rest divides the number of windows, or there is none. -/
theorem adaptive_pool_windows_iff (exportType : ExportType) (depth : Nat) {op : OpNode} {x y type : String}
    {s : PoolSizes} (htype : op.type = "pool2d") (h : op.PoolsAdaptively x y type s) (d : Draft)
    (hversion : 1 ≤ d.opset) (hceil : (op.attr "ceil_mode").truthy = true → 10 ≤ d.opset) :
    (s.agree = true → ∃ d' n, Emission (mapUpTo Registry.standard exportType (depth + 1) op) d d' () [n] ∧
      ((∀ i < s.outHeight.toNat, n.window 0 i = some (adaptiveWindow s.height s.outHeight i)) ↔
        s.height % s.outHeight ≤ 1) ∧
      ((∀ i < s.outWidth.toNat, n.window 1 i = some (adaptiveWindow s.width s.outWidth i)) ↔
        s.width % s.outWidth ≤ 1)) ∧
    (s.agree = false → EStateM.run (mapUpTo Registry.standard exportType (depth + 1) op) d =
      .error ((Fault.refusal s.refusal).atSite op.site) d) ∧
    (sameSpanExactly s.height s.outHeight = true ↔
      s.height % s.outHeight = 0 ∨ s.height % s.outHeight ∣ s.outHeight) ∧
    (sameSpanExactly s.width s.outWidth = true ↔
      s.width % s.outWidth = 0 ∨ s.width % s.outWidth ∣ s.outWidth) := by
  have hrule : Registry.standard.ruleFor op.type d.opset = .ok pool := by
    rw [htype]
    exact Registry.ruleFor_of_latest rfl rfl hversion (by simp)
  have hno : Registry.standard.composite? (.str op.type) = none := by
    rw [htype]
    rfl
  have hpool := pool_eq_adaptivePool h
  refine ⟨fun hagree => ?_, fun hagree => ?_, sameSpanExactly_iff s.outHeight_pos,
    sameSpanExactly_iff s.outWidth_pos⟩
  · have hemits : Emission (pool op) d _ () _ := hpool ▸ emission_adaptivePool h d hceil hagree
    refine ⟨_, _, emission_mapUpTo_of_rule hno hrule hemits, ?_, ?_⟩
    · simp only [(window_asked h d.opset _ _ _ _).1, Option.some.injEq]
      exact fixedWindow_eq_iff s.height_pos s.outHeight_pos
    · simp only [(window_asked h d.opset _ _ _ _).2, Option.some.injEq]
      exact fixedWindow_eq_iff s.width_pos s.outWidth_pos
  · exact run_mapUpTo_of_fault hno hrule (hpool ▸ run_adaptivePool_refused h d hagree)

def PoolSizes.square (n m : Int) (hn : 0 < n) (hm : 0 < m) : PoolSizes :=
  { batch := 1, channels := 1, height := n, width := n, outHeight := m, outWidth := m
    channels_pos := Int.one_pos, height_pos := hn, width_pos := hn, outHeight_pos := hm, outWidth_pos := hm }

def OpNode.pooling (s : PoolSizes) : OpNode :=
  { name := "pool2d_0", type := "pool2d", inputs := [("X", .strs ["x"])], outputs := [("Out", .strs ["y"])]
    attrs := [("adaptive", .bool true), ("ksize", .ints [s.outHeight, s.outWidth]),
      ("global_pooling", .bool false), ("pooling_type", .str "avg"), ("exclusive", .bool true),
      ("ceil_mode", .bool false), ("padding_algorithm", .str "EXPLICIT")]
    block := some
      { vars := [{ name := "x", shape := s.dims }, { name := "y", shape := s.outDims }], ops := [] } }

theorem OpNode.poolsAdaptively_pooling (s : PoolSizes) (hsize : s.outHeight ≠ 1) :
    (pooling s).PoolsAdaptively "x" "y" "AveragePool" s :=
  { input := rfl, output := rfl, inputShape := rfl, outputShape := rfl, kind := ⟨_, rfl⟩, partly := rfl
    adaptive := rfl, unpadded := rfl
    ksize := by
      change ((Value.int s.outHeight).same (.int 1) && _) = false
      rw [Bool.and_eq_false_iff]
      exact Or.inl (Bool.eq_false_iff.2 (mt (Value.same_int_int _ _).1 hsize)) }

/-- **Seven elements are pooled to three as they should be, six to four are not, and five to three are
refused.** -/
theorem adaptive_pool_windows_iff_square :
    (∃ d' n, Emission (mapUpTo Registry.standard .none 1
        (.pooling (.square 7 3 (by decide) (by decide)))) { opset := 9 } d' () [n] ∧
      ∀ i < 3, n.window 0 i = some (adaptiveWindow 7 3 i)) ∧
    (sameSpanExactly 6 4 = true ∧ ∃ d' n, Emission (mapUpTo Registry.standard .none 1
        (.pooling (.square 6 4 (by decide) (by decide)))) { opset := 9 } d' () [n] ∧
      ¬ ∀ i < 4, n.window 0 i = some (adaptiveWindow 6 4 i)) ∧
    ∃ f, EStateM.run (mapUpTo Registry.standard .none 1
        (.pooling (.square 5 3 (by decide) (by decide)))) { opset := 9 } = .error f { opset := 9 } := by
  have hpools := fun s hsize => adaptive_pool_windows_iff .none 0 rfl (OpNode.poolsAdaptively_pooling s hsize)
    { opset := 9 } (by decide) (fun h => nomatch h)
  refine ⟨?_, ⟨?_, ?_⟩, ?_⟩
  · obtain ⟨d', n, hemits, hheight, -⟩ := (hpools (.square 7 3 (by decide) (by decide)) (by decide)).1
      (by decide +kernel)
    exact ⟨d', n, hemits, hheight.2 (by decide)⟩
  · exact (hpools (.square 6 4 (by decide) (by decide)) (by decide)).2.2.1.2 (by decide)
  · obtain ⟨d', n, hemits, hheight, -⟩ := (hpools (.square 6 4 (by decide) (by decide)) (by decide)).1
      (by decide +kernel)
    exact ⟨d', n, hemits, mt hheight.1 (by decide)⟩
  · exact ⟨_, (hpools (.square 5 3 (by decide) (by decide)) (by decide)).2.1 (by decide +kernel)⟩

end ModelExport
