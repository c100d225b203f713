import ModelExport.Proofs.Doubles.Arithmetic

/-!
# Proofs/Doubles/Bounds — sizes of doubles

What is below a power of two (`Under`) is so when it is halved, and below four times that power when it is added to
another one; it has an integer part (`exists_truncate`).  A quotient of integers is bounded by its numerator
(`exists_div`).
-/

namespace ModelExport.Double

open Float.Model Float.Model.UnpackedFloat

variable {d k m n : Nat} {e q : Int}

variable {x y : Float}

/-! ## Below a power of two -/

/-- **Below a power of two.** -/
inductive Under (k : Int) : UnpackedFloat → Prop
  | zero (s : Sign) : Under k (.zero s)
  | finite {m : Nat} {e : Int} (s : Sign) (h : 0 < m) : top m e < k → Under k (.finite s m e h)

theorem Canonical.exponent_le (hc : Canonical m e) (hm : 0 < m) : e ≤ unit m e := by
  have hlog : ∀ h : 2 ^ 52 ≤ m, 52 ≤ m.log2 := fun h => (Nat.le_log2 hm.ne').2 h
  simp only [unit, top]
  rcases hc.full with hfull | hleast
  · have := hlog hfull
    omega
  · omega

theorem Canonical.under {k : Int} (s : Sign) (h : 0 < m) (hc : Canonical m e) (htop : top m e < k)
    (hk : k ≤ 1024) : Under k (Float.Model.pack (.finite s m e h)).unpack := by
  have hle := hc.exponent_le h
  rw [unpack_pack s h hc (by simp only [unit] at hle; omega)]
  exact .finite s h htop

namespace Under

variable {k : Int} {u v : UnpackedFloat}

theorem mono {l : Int} (h : Under k u) (hkl : k ≤ l) : Under l u := by
  cases h with
  | zero s => exact .zero s
  | finite s h htop => exact .finite s h (htop.trans_le hkl)

/-- Rounding moves the first bit up by one place at most. -/
theorem rounded (s : Sign) (a : Accuracy) (hm : 0 < m) (hunit : e ≤ unit m e) (htop : top m e < k)
    (hlow : -1074 ≤ k) (hk : k ≤ 1023) :
    Under (k + 1) (Float.Model.pack (roundWithAccuracy Format.binary64 s m e a)).unpack := by
  by_cases hleast : -1074 ≤ top m e
  · obtain ⟨m', e', h, hround, -, -, -, hle, hcanonical⟩ := round_spec s a hm hleast
    rw [hround]
    exact (hcanonical hunit).under s h (by omega) (by omega)
  · rcases round_below s a (Int.not_le.1 hleast) with hround | hround
    · rw [hround]
      cases s <;> exact .zero _
    · have hone : top 1 (-1074) = -1074 := rfl
      rw [hround]
      exact Canonical.under s Nat.one_pos ⟨by decide, le_rfl, Or.inr rfl⟩ (by rw [hone]; omega) (by omega)

theorem round (s : Sign) (hm : 0 < m) (htop : top m e < k) (hlow : -1074 ≤ k) (hk : k ≤ 1023) :
    Under (k + 1) (Float.Model.pack (UnpackedFloat.round Format.binary64 s m e)).unpack := by
  rw [round_eq]
  refine rounded s .exact (Nat.mul_pos hm (Nat.two_pow_pos _)) ?_ ?_ hlow hk
  · rw [unit_smaller hm]
    omega
  · rwa [top_smaller hm]

theorem normalize {n : Int} {z : Sign} (hn : top n.natAbs q < k) (hlow : -1074 ≤ k) (hk : k ≤ 1023) :
    Under (k + 1) (Float.Model.pack (UnpackedFloat.normalize Format.binary64 n q z)).unpack := by
  by_cases hzero : n = 0
  · rw [hzero, normalize_zero]
    cases z <;> exact .zero _
  · obtain ⟨s, hs⟩ := exists_normalize hzero q z
    rw [hs]
    exact round s (Int.natAbs_pos.2 hzero) hn hlow hk

end Under

theorem natAbs_apply (s : Sign) (n : Nat) : (s.apply n).natAbs = n := by
  cases s
  · exact Int.natAbs_neg n
  · exact Int.natAbs_natCast n

theorem lt_two_pow_of_top {k : Int} (htop : top m e < k) (hq : q ≤ e) :
    m * 2 ^ (e - q).toNat < 2 ^ (k - q).toNat := by
  simp only [top] at htop
  have hbits : m < 2 ^ (m.log2 + 1) := Nat.lt_log2_self
  refine (Nat.mul_lt_mul_of_pos_right hbits (Nat.two_pow_pos _)).trans_le ?_
  rw [← Nat.pow_add]
  exact Nat.pow_le_pow_right (by decide) (by omega)

/-- **A sum** of numbers below a power of two. -/
theorem Under.add {k : Int} (hx : Under k (reading x)) (hy : Under k (reading y)) (hlow : -1074 ≤ k) (hk : k ≤ 1022) :
    Under (k + 2) (reading (x + y)) := by
  have hkept := unpack_pack_reading x
  have hkept' := unpack_pack_reading y
  change Under (k + 2) (Float.Model.pack (UnpackedFloat.add Format.binary64 (reading x) (reading y))).unpack
  obtain ⟨u, hu⟩ : ∃ u, reading x = u := ⟨_, rfl⟩
  obtain ⟨v, hv⟩ : ∃ v, reading y = v := ⟨_, rfl⟩
  rw [hu] at hx hkept ⊢
  rw [hv] at hy hkept' ⊢
  cases hx with
  | zero s =>
    cases hy with
    | zero t => cases s <;> cases t <;> exact .zero _
    | finite t h htop =>
      change Under (k + 2) (Float.Model.pack (.finite t _ _ h)).unpack
      rw [hkept']
      exact .finite t h (by omega)
  | @finite m e s h htop =>
    cases hy with
    | zero t =>
      change Under (k + 2) (Float.Model.pack (.finite s _ _ h)).unpack
      rw [hkept]
      exact .finite s h (by omega)
    | @finite n f t h' htop' =>
      obtain ⟨q, hq⟩ : ∃ q, q = min e f := ⟨_, rfl⟩
      have hnext : k + 2 = k + 1 + 1 := by omega
      rw [hnext]
      change Under (k + 1 + 1) (Float.Model.pack (UnpackedFloat.normalize Format.binary64
        (s.apply (m <<< (e - min e f).toNat : Nat) + t.apply (n <<< (f - min e f).toNat : Nat)) (min e f)
          .positive)).unpack
      rw [← hq]
      refine .normalize ?_ (by omega) (by omega)
      rw [Nat.shiftLeft_eq, Nat.shiftLeft_eq]
      have hbits := lt_two_pow_of_top htop (q := q) (by omega)
      have hbits' := lt_two_pow_of_top htop' (q := q) (by omega)
      have hsum := Int.natAbs_add_le (s.apply (m * 2 ^ (e - q).toNat : Nat)) (t.apply (n * 2 ^ (f - q).toNat : Nat))
      rw [natAbs_apply, natAbs_apply] at hsum
      have hlog := log2_le_of_lt (k := (k - q).toNat) (hsum.trans_lt (by rw [Nat.pow_succ]; omega))
      simp only [top] at htop ⊢
      omega

/-- **Half of a number** below a power of two. -/
theorem Under.half {k : Int} (hx : Under k (reading x)) (hlow : -1074 ≤ k) (hk : k ≤ 1023) :
    Under (k + 1) (reading (x * 0.5)) := by
  change Under (k + 1) (Float.Model.pack (UnpackedFloat.mul Format.binary64 (reading x) (reading 0.5))).unpack
  rw [reading_half]
  obtain ⟨u, hu⟩ : ∃ u, reading x = u := ⟨_, rfl⟩
  rw [hu] at hx ⊢
  cases hx with
  | zero s => cases s <;> exact .zero _
  | @finite m e s h htop =>
    change Under (k + 1) (Float.Model.pack
      (roundWithAccuracy Format.binary64 (s * .positive) (m * 2 ^ 52) (e + -53) .exact)).unpack
    have hlog := log2_mul_two_pow h 52
    refine .rounded _ .exact (Nat.mul_pos h (Nat.two_pow_pos _)) ?_ ?_ hlow hk
    · simp only [unit, top, hlog]
      omega
    · simp only [top, hlog] at htop ⊢
      omega

-- shifting by one bit after another goes deep
set_option maxRecDepth 1000 in
theorem reading_aboveSingles : reading 1e39 = .finite .positive 6617444900424221 77 (by omega) := rfl

theorem under_of_abs_lt (h : x.abs < 1e39) : Under 130 (reading x) := by
  rw [lt_iff, reading_aboveSingles, reading_abs] at h
  obtain ⟨u, hu⟩ : ∃ u, reading x = u := ⟨_, rfl⟩
  rw [hu] at h ⊢
  cases u with
  | notANumber => cases h
  | infinity s => cases h
  | zero s => exact .zero s
  | finite s m e hm =>
    have hlog := log2_le_of_lt (canonical_reading hu).1.bits
    refine .finite s hm ?_
    have hle : e ≤ 77 := by
      by_contra hlt
      have hgt : compare e 77 = .gt := compare_gt_iff_gt.2 (by omega)
      change some ((compare e 77).then _) = _ at h
      rw [hgt] at h
      cases h
    simp only [top]
    omega

/-! ## Integer parts and quotients -/

theorem natAbs_truncate (negative : Bool) (h : top m e < k) :
    (Binary.truncate negative m e).natAbs < 2 ^ k := by
  have hbits : m < 2 ^ (m.log2 + 1) := Nat.lt_log2_self
  have habs : (Binary.truncate negative m e).natAbs = (Binary.dyadic m e).1 / (Binary.dyadic m e).2 := by
    cases negative
    · rfl
    · exact Int.natAbs_neg _
  simp only [top] at h
  rw [habs]
  cases e with
  | ofNat j =>
    change m * 2 ^ j / 1 < 2 ^ k
    rw [Nat.div_one]
    refine (Nat.mul_lt_mul_of_pos_right hbits (Nat.two_pow_pos j)).trans_le ?_
    rw [← Nat.pow_add]
    exact Nat.pow_le_pow_right (by decide) (by simp only [Int.ofNat_eq_natCast] at h; omega)
  | negSucc j =>
    change m / 2 ^ (j + 1) < 2 ^ k
    rw [Nat.div_lt_iff_lt_mul (Nat.two_pow_pos _), ← Nat.pow_add]
    exact hbits.trans_le (Nat.pow_le_pow_right (by decide) (by omega))

/-- **A number below a power of two has an integer part.** -/
theorem exists_truncate (h : Under k (reading x)) : ∃ n : Int, Value.truncate x = .ok n ∧ n.natAbs < 2 ^ k := by
  rw [Value.truncate, ofFloat_eq]
  obtain ⟨u, hu⟩ : ∃ u, reading x = u := ⟨_, rfl⟩
  rw [hu] at h ⊢
  cases h with
  | zero s =>
    have htop : top 0 (-1074) = -1074 := rfl
    exact ⟨_, rfl, natAbs_truncate _ (by omega)⟩
  | finite s h htop => exact ⟨_, rfl, natAbs_truncate _ htop⟩

theorem roundQuotient_le (n d : Nat) : Binary.roundQuotient n d ≤ n / d + 1 := by
  unfold Binary.roundQuotient
  dsimp only
  split
  · exact Nat.le_succ _
  · exact le_rfl
  · split
    · exact Nat.le_succ _
    · exact le_rfl

/-- **At most 53 bits are left in large enough units.** -/
theorem fitsAt_of_le (hd : 0 < d) (hq : (n.log2 : Int) - d.log2 - 52 ≤ q) : Binary.fitsAt n d q = true := by
  have hn : n < 2 ^ (n.log2 + 1) := Nat.lt_log2_self
  have hlow : 2 ^ d.log2 ≤ d := Nat.log2_self_le hd.ne'
  cases q with
  | ofNat j =>
    refine decide_eq_true ?_
    change n / (d * 2 ^ j) < 2 ^ 53
    rw [Nat.div_lt_iff_lt_mul (Nat.mul_pos hd (Nat.two_pow_pos j))]
    calc n < 2 ^ (n.log2 + 1) := hn
      _ ≤ 2 ^ (53 + (d.log2 + j)) :=
        Nat.pow_le_pow_right (by decide) (by simp only [Int.ofNat_eq_natCast] at hq; omega)
      _ = 2 ^ 53 * (2 ^ d.log2 * 2 ^ j) := by rw [Nat.pow_add, Nat.pow_add]
      _ ≤ 2 ^ 53 * (d * 2 ^ j) := Nat.mul_le_mul_left _ (Nat.mul_le_mul_right _ hlow)
  | negSucc j =>
    refine decide_eq_true ?_
    change n * 2 ^ (j + 1) / d < 2 ^ 53
    rw [Nat.div_lt_iff_lt_mul hd]
    calc n * 2 ^ (j + 1) < 2 ^ (n.log2 + 1) * 2 ^ (j + 1) := Nat.mul_lt_mul_of_pos_right hn (Nat.two_pow_pos _)
      _ = 2 ^ (n.log2 + 1 + (j + 1)) := (Nat.pow_add ..).symm
      _ ≤ 2 ^ (53 + d.log2) := Nat.pow_le_pow_right (by decide) (by omega)
      _ = 2 ^ 53 * 2 ^ d.log2 := Nat.pow_add ..
      _ ≤ 2 ^ 53 * d := Nat.mul_le_mul_left _ hlow

theorem fitsAt_ratioExponent (hd : 0 < d) : Binary.fitsAt n d (Binary.ratioExponent n d) = true := by
  unfold Binary.ratioExponent
  dsimp only [Int.ofNat_eq_natCast]
  split
  · rename_i h
    by_cases hmin : (-1074 : Int) ≤ n.log2 - d.log2 - 53
    · rwa [max_eq_left hmin]
    · exact fitsAt_of_le hd (by omega)
  · split <;> exact fitsAt_of_le hd (by omega)

theorem ratioExponent_le (d : Nat) (hn : n < 2 ^ k) : Binary.ratioExponent n d ≤ (k : Int) - 51 := by
  have hlog : n.log2 ≤ k := log2_le_of_lt (hn.trans (Nat.pow_lt_pow_right (by decide) (Nat.lt_succ_self k)))
  unfold Binary.ratioExponent
  dsimp only [Int.ofNat_eq_natCast]
  split
  · omega
  · split <;> omega

theorem dyadicBits_lt (hm : m < 2 ^ 53) (hq : q ≤ k - 50) (hk : k ≤ 1000) :
    Binary.dyadicBits m q < (k + 1026) * 2 ^ 52 := by
  unfold Binary.dyadicBits
  simp only [Nat.pow_eq]
  split
  · rename_i hfew
    exact hfew.trans_le (Nat.le_mul_of_pos_left _ (Nat.succ_pos _))
  · rw [if_neg (by omega)]
    omega

theorem ratioBits_lt (hn : n < 2 ^ k) (hd : 0 < d) (hk : k ≤ 1000) :
    Binary.ratioBits n d < (k + 1026) * 2 ^ 52 := by
  have hexp := ratioExponent_le d hn
  have hquot : (Binary.scaled n d (Binary.ratioExponent n d)).1 / (Binary.scaled n d (Binary.ratioExponent n d)).2 <
      2 ^ 53 := of_decide_eq_true (fitsAt_ratioExponent hd)
  have hround := roundQuotient_le (Binary.scaled n d (Binary.ratioExponent n d)).1
    (Binary.scaled n d (Binary.ratioExponent n d)).2
  unfold Binary.ratioBits
  dsimp only
  split
  · omega
  · split
    · exact dyadicBits_lt (by decide) (by omega) hk
    · rename_i hne
      exact dyadicBits_lt (lt_of_le_of_ne (by omega) (mt beq_iff_eq.2 hne)) (by omega) hk

theorem under_ofFields (s : Sign) {E M : Nat} (hE : E < 2047) (hM : M < 2 ^ 52) :
    Under (E - 1022) (Float.Model.pack (ofFields s E M)).unpack := by
  by_cases hzero : E = 0
  · rw [ofFields, if_neg hE.ne, if_pos hzero]
    split
    · cases s <;> exact .zero _
    · rename_i hM'
      have hlog := log2_le_of_lt hM
      exact Canonical.under s (Nat.pos_of_ne_zero hM') ⟨by omega, le_rfl, Or.inr rfl⟩ (by simp only [top]; omega)
        (by omega)
  · have hlog := log2_le_of_lt (show 2 ^ 52 + M < 2 ^ 53 by omega)
    rw [ofFields, if_neg hE.ne, if_neg hzero]
    exact Canonical.under s (by omega) ⟨by omega, by omega, Or.inl (by omega)⟩ (by simp only [top]; omega) (by omega)

theorem under_ofBits {k : Int} (h : n / 2 ^ 52 % 2 ^ 11 < 2047) (hk : (n / 2 ^ 52 % 2 ^ 11 : Nat) - 1022 ≤ k) :
    Under k (reading (Float.ofBits (UInt64.ofNat n))) := by
  change Under k (Float.Model.pack (UnpackedFloat.unpack Format.binary64 (BitVec.ofNat 64 n))).unpack
  have hfield : (unpackExponent (BitVec.ofNat Format.binary64.numBits n)).toNat = n / 2 ^ 52 % 2 ^ 11 := by
    rw [toNat_unpackExponent]
    change n % 2 ^ 64 / 2 ^ 52 % 2 ^ 11 = _
    omega
  rw [unpack_eq_ofFields]
  refine (under_ofFields _ ?_ (BitVec.isLt _)).mono ?_
  · exact hfield.trans_lt h
  · exact (congrArg (fun E : Nat => (E : Int) - 1022) hfield).trans_le hk

/-- **A quotient of naturals** is not much larger than its numerator. -/
theorem under_ofRatio (negative : Bool) (hn : n < 2 ^ k) (hd : 0 < d) (hk : k ≤ 1000) :
    Under (k + 4) (reading (Binary.ofRatio negative n d)) := by
  have hlt := ratioBits_lt hn hd hk
  cases negative
  · refine under_ofBits ?_ ?_ <;> simp only [Bool.false_eq_true, if_false] <;> omega
  · refine under_ofBits ?_ ?_ <;> simp only [if_true, Nat.pow_eq] <;> omega

theorem Under.isFinite {k : Int} (h : Under k (reading x)) : x.isFinite = true := by
  change (reading x).isFinite = true
  obtain ⟨u, hu⟩ : ∃ u, reading x = u := ⟨_, rfl⟩
  rw [hu] at h ⊢
  cases h <;> rfl

/-- **A quotient of integers.** -/
theorem exists_div {a b : Int} (ha : a.natAbs < 2 ^ k) (hb : b ≠ 0) (hk : k ≤ 1000) :
    ∃ x, Value.div (.int a) (.int b) = .ok (.float x) ∧ Under (k + 4) (reading x) := by
  have hunder := under_ofRatio ((a < 0) != (b < 0) && a != 0) ha (Int.natAbs_pos.2 hb) hk
  have hsome : Binary.ofIntRatio? a b = some (Binary.ofRatio ((a < 0) != (b < 0) && a != 0) a.natAbs b.natAbs) :=
    if_pos hunder.isFinite
  refine ⟨_, ?_, hunder⟩
  change (if b == 0 then _ else _) = _
  rw [if_neg (mt beq_iff_eq.1 hb), hsome]

/-- **An integer as a double.** -/
theorem exists_ofInt {a : Int} (ha : a.natAbs < 2 ^ k) (hk : k ≤ 1000) :
    ∃ x, (Number.exact a).toFloat = .ok x := by
  have hsome : Binary.ofInt? a = some (Binary.ofRatio (a < 0) a.natAbs 1) :=
    if_pos (under_ofRatio _ ha Nat.one_pos hk).isFinite
  exact ⟨_, by rw [Number.toFloat, hsome]⟩

end ModelExport.Double
