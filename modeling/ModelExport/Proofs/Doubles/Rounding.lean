import Mathlib
import ModelExport.Number.Binary

/-!
# Proofs/Doubles/Rounding — what rounding does to a number

    m · 2 ^ e     53 bits, or units of 2 ^ -1074 where these are larger

A number is rounded in units of such a size that at most 53 bits are left (`unit`).  What is left is the quotient by
the unit or one more (`exists_rounded`), so that the first bit of a number stays where it is or moves up by one place,
and a number that is not below the least unit does not become zero (`round_spec`).
-/

namespace ModelExport.Double

open Float.Model Float.Model.UnpackedFloat

variable {k m : Nat} {e : Int}

/-- The place of the first bit of `m · 2 ^ e`. -/
def top (m : Nat) (e : Int) : Int := m.log2 + e

/-- The exponent of the units that `m · 2 ^ e` is rounded in. -/
def unit (m : Nat) (e : Int) : Int := max (top m e - 52) (-1074)

/-- **A number in the units that it is rounded in.** -/
structure Canonical (m : Nat) (e : Int) : Prop where
  bits : m < 2 ^ 53
  least : -1074 ≤ e
  full : 2 ^ 52 ≤ m ∨ e = -1074

/-! ## Shifts -/

theorem mantissa_shiftRight (em : ExtendedMantissa) (k : Nat) : (em >>> k).mantissa = em.mantissa / 2 ^ k := by
  induction k with
  | zero => exact (Nat.div_one _).symm
  | succ k ih =>
    change (em >>> k).mantissa / 2 = _
    rw [ih, Nat.div_div_eq_div_mul, Nat.pow_succ]

theorem mantissa_ofAccuracy (m : Nat) (a : Accuracy) : (ExtendedMantissa.ofMantissaAndAccuracy m a).mantissa = m := by
  cases a with
  | exact => rfl
  | inexact o => cases o <;> rfl

theorem roundedMantissa_bounds (em : ExtendedMantissa) :
    em.mantissa ≤ em.roundedMantissa ∧ em.roundedMantissa ≤ em.mantissa + 1 := by
  obtain ⟨m, _ | _, sticky⟩ := em
  · cases sticky <;> exact ⟨Nat.le_refl m, Nat.le_succ m⟩
  · cases sticky with
    | false =>
      change m ≤ m + m % 2 ∧ m + m % 2 ≤ m + 1
      omega
    | true => exact ⟨Nat.le_succ m, Nat.le_refl _⟩

theorem targetExponent_eq (m : Nat) (e : Int) :
    Format.binary64.targetExponent (totalExponent m e) = unit m e := by
  change max ((m.log2 + 1 + e : Int) - 53) (-1074) = max ((m.log2 + e : Int) - 52) (-1074)
  congr 1
  omega

theorem shiftToTargetExponent_eq (m : Nat) (e : Int) (a : Accuracy) :
    shiftToTargetExponent Format.binary64 m e a =
      (ExtendedMantissa.ofMantissaAndAccuracy m a >>> (unit m e - e).toNat, e + (unit m e - e).toNat) := by
  rw [← targetExponent_eq]
  rfl

theorem log2_le_of_lt (h : m < 2 ^ (k + 1)) : m.log2 ≤ k := by
  rcases Nat.eq_zero_or_pos m with rfl | hm
  · exact Nat.zero_le k
  · exact Nat.le_of_lt_succ ((Nat.log2_lt hm.ne').2 h)

theorem lt_of_log2_le (h : m.log2 ≤ k) : m < 2 ^ (k + 1) :=
  Nat.lt_of_lt_of_le Nat.lt_log2_self (Nat.pow_le_pow_right (by decide) (Nat.succ_le_succ h))

theorem div_unit_lt (m : Nat) (e : Int) : m / 2 ^ (unit m e - e).toNat < 2 ^ 53 := by
  rw [Nat.div_lt_iff_lt_mul (Nat.two_pow_pos _), ← Nat.pow_add]
  refine lt_of_log2_le (k := 52 + (unit m e - e).toNat) ?_ |>.trans_eq (by congr 1; omega)
  simp only [unit, top]
  omega

/-- The number that is left after rounding, brought to 53 bits again. -/
def rounded (s : Sign) (r : Nat) (e : Int) : UnpackedFloat :=
  if h : r = 0 then .zero s
  else if r < 2 ^ 53 then .finite s r e (Nat.pos_of_ne_zero h)
  else .finite s (2 ^ 52) (e + 1) (Nat.two_pow_pos 52)

/-- The second shift has nothing to do, except where rounding has brought another bit. -/
theorem shift_rounded {r : Nat} (hr : r ≤ 2 ^ 53) (he : -1074 ≤ e) (s : Sign) :
    (if h : r / 2 ^ (unit r e - e).toNat = 0 then UnpackedFloat.zero s
      else .finite s (r / 2 ^ (unit r e - e).toNat) (e + (unit r e - e).toNat) (Nat.pos_of_ne_zero h)) =
      rounded s r e := by
  rcases Nat.lt_or_ge r (2 ^ 53) with hlt | hge
  · have hlog : r.log2 ≤ 52 := log2_le_of_lt hlt
    have hshift : (unit r e - e).toNat = 0 := by simp only [unit, top]; omega
    simp only [hshift, Nat.pow_zero, Nat.div_one, rounded, hlt, if_true, Int.natCast_zero, Int.add_zero]
  · obtain rfl : r = 2 ^ 53 := Nat.le_antisymm hr hge
    have hlog : (2 ^ 53 : Nat).log2 = 53 := Nat.log2_two_pow
    have hshift : (unit (2 ^ 53) e - e).toNat = 1 := by simp only [unit, top, hlog]; omega
    rw [hshift]
    rfl

/-- **Rounding keeps the quotient by the unit, or one more.**  A number in its units stays as it is. -/
theorem exists_rounded (s : Sign) (m : Nat) (e : Int) (a : Accuracy) :
    ∃ r, m / 2 ^ (unit m e - e).toNat ≤ r ∧ r ≤ m / 2 ^ (unit m e - e).toNat + 1 ∧
      (a = .exact → unit m e ≤ e → r = m) ∧
      roundWithAccuracy Format.binary64 s m e a = rounded s r (max e (unit m e)) := by
  let em := ExtendedMantissa.ofMantissaAndAccuracy m a >>> (unit m e - e).toNat
  have hfirst : em.mantissa = m / 2 ^ (unit m e - e).toNat := by
    rw [mantissa_shiftRight, mantissa_ofAccuracy]
  obtain ⟨hlow, hhigh⟩ := roundedMantissa_bounds em
  rw [hfirst] at hlow hhigh
  have hexp : e + (unit m e - e).toNat = max e (unit m e) := by omega
  have hleast : -1074 ≤ max e (unit m e) := by simp only [unit]; omega
  have hbits : em.roundedMantissa ≤ 2 ^ 53 := by
    have := div_unit_lt m e
    omega
  refine ⟨em.roundedMantissa, hlow, hhigh, fun ha hunit => ?_, ?_⟩
  · have hshift : (unit m e - e).toNat = 0 := by omega
    simp only [em, hshift, ha]
    rfl
  rw [← shift_rounded hbits hleast s]
  change (let first := shiftToTargetExponent Format.binary64 m e a
    let second := shiftToTargetExponent Format.binary64 first.1.roundedMantissa first.2 .exact
    if h : second.1.mantissa = 0 then UnpackedFloat.zero s
      else .finite s second.1.mantissa second.2 (Nat.pos_of_ne_zero h)) = _
  simp only [shiftToTargetExponent_eq, hexp, mantissa_shiftRight, mantissa_ofAccuracy]
  rfl

/-! ## Rounded numbers -/

theorem div_pow_bounds (hm : 0 < m) (hk : k ≤ m.log2) :
    2 ^ (m.log2 - k) ≤ m / 2 ^ k ∧ m / 2 ^ k < 2 ^ (m.log2 - k + 1) := by
  rw [Nat.le_div_iff_mul_le (Nat.two_pow_pos k), Nat.div_lt_iff_lt_mul (Nat.two_pow_pos k), ← Nat.pow_add,
    ← Nat.pow_add, Nat.sub_add_cancel hk, Nat.add_right_comm, Nat.sub_add_cancel hk]
  exact ⟨Nat.log2_self_le hm.ne', Nat.lt_log2_self⟩

/-- **A number that is not below the least unit is rounded to one whose first bit is at the same place, or at the
next.** -/
theorem round_spec (s : Sign) (a : Accuracy) (hm : 0 < m) (hlow : -1074 ≤ top m e) :
    ∃ m' e' h, roundWithAccuracy Format.binary64 s m e a = .finite s m' e' h ∧ m' < 2 ^ 53 ∧ -1074 ≤ e' ∧
      top m e ≤ top m' e' ∧ top m' e' ≤ top m e + 1 ∧ (e ≤ unit m e → Canonical m' e') := by
  obtain ⟨r, hlow', hhigh', -, hround⟩ := exists_rounded s m e a
  have hbits := div_unit_lt m e
  obtain ⟨k, hk⟩ : ∃ k, k = (unit m e - e).toNat := ⟨_, rfl⟩
  rw [← hk] at hlow' hhigh' hbits
  have hle : k ≤ m.log2 := by simp only [hk, unit]; simp only [top] at hlow ⊢; omega
  have hexp : max e (unit m e) = e + k := by omega
  obtain ⟨hquot, hquot'⟩ := div_pow_bounds hm hle
  have hpos : r ≠ 0 := (Nat.lt_of_lt_of_le (Nat.two_pow_pos _) (hquot.trans hlow')).ne'
  have hlog : m.log2 - k ≤ r.log2 := (Nat.le_log2 hpos).2 (hquot.trans hlow')
  have hlog' : r.log2 ≤ m.log2 - k + 1 := log2_le_of_lt (by rw [Nat.pow_succ]; omega)
  have hleast : -1074 ≤ e + k := by rw [← hexp]; simp only [unit]; omega
  rw [hround, hexp, rounded, dif_neg hpos]
  split
  · rename_i hr
    refine ⟨r, _, Nat.pos_of_ne_zero hpos, rfl, hr, hleast, by simp only [top]; omega, by simp only [top]; omega,
      fun hunit => ⟨hr, hleast, ?_⟩⟩
    by_cases hmin : unit m e = -1074
    · exact Or.inr (by omega)
    · have hfull : m.log2 - k = 52 := by simp only [unit, top] at hk hunit hmin; omega
      exact Or.inl (hfull ▸ hquot.trans hlow')
  · -- rounding has brought another bit
    rename_i hr
    have hcarry : 53 ≤ r.log2 := (Nat.le_log2 hpos).2 (Nat.not_lt.1 hr)
    have hlast : r.log2 ≤ 53 := log2_le_of_lt (by omega)
    have htop : (2 ^ 52 : Nat).log2 = 52 := Nat.log2_two_pow
    exact ⟨2 ^ 52, _, Nat.two_pow_pos 52, rfl, by decide, by omega, by simp only [top, htop]; omega,
      by simp only [top, htop]; omega, fun _ => ⟨by decide, by omega, Or.inl le_rfl⟩⟩

/-- Of a number below the least unit nothing is left, or one unit. -/
theorem round_below (s : Sign) (a : Accuracy) (hlow : top m e < -1074) :
    roundWithAccuracy Format.binary64 s m e a = .zero s ∨
      roundWithAccuracy Format.binary64 s m e a = .finite s 1 (-1074) Nat.one_pos := by
  obtain ⟨r, -, hhigh, -, hround⟩ := exists_rounded s m e a
  have hunit : unit m e = -1074 := by simp only [unit]; omega
  have hexp : max e (unit m e) = -1074 := by simp only [top] at hlow; omega
  have hnone : m / 2 ^ (unit m e - e).toNat = 0 := by
    refine Nat.div_eq_of_lt (lt_of_log2_le (k := (unit m e - e).toNat - 1) ?_ |>.trans_le ?_)
    · simp only [top] at hlow
      omega
    · exact Nat.pow_le_pow_right (by decide) (by simp only [top] at hlow; omega)
  rw [hround, hexp]
  rcases Nat.le_one_iff_eq_zero_or_eq_one.1 (hnone ▸ hhigh) with rfl | rfl
  · exact Or.inl rfl
  · exact Or.inr rfl

theorem log2_mul_two_pow (hm : 0 < m) (k : Nat) : (m * 2 ^ k).log2 = m.log2 + k := by
  rw [Nat.log2_eq_iff (Nat.mul_pos hm (Nat.two_pow_pos k)).ne', Nat.pow_add, Nat.add_right_comm, Nat.pow_add]
  exact ⟨Nat.mul_le_mul_right _ (Nat.log2_self_le hm.ne'),
    Nat.mul_lt_mul_of_pos_right Nat.lt_log2_self (Nat.two_pow_pos k)⟩

theorem round_eq (s : Sign) (m : Nat) (e : Int) : UnpackedFloat.round Format.binary64 s m e =
    roundWithAccuracy Format.binary64 s (m * 2 ^ (e - unit m e).toNat) (e - (e - unit m e).toNat) .exact := by
  rw [← Nat.shiftLeft_eq, ← targetExponent_eq]
  rfl

theorem top_smaller (hm : 0 < m) (e : Int) (k : Nat) : top (m * 2 ^ k) (e - k) = top m e := by
  simp only [top, log2_mul_two_pow hm]
  omega

theorem unit_smaller (hm : 0 < m) (e : Int) (k : Nat) : unit (m * 2 ^ k) (e - k) = unit m e := by
  rw [unit, top_smaller hm, unit]

/-- **A number that is not below the least unit is rounded to one in its units.** -/
theorem round_number (s : Sign) (hm : 0 < m) (hlow : -1074 ≤ top m e) :
    ∃ m' e' h, UnpackedFloat.round Format.binary64 s m e = .finite s m' e' h ∧ Canonical m' e' ∧
      top m e ≤ top m' e' ∧ top m' e' ≤ top m e + 1 := by
  rw [round_eq]
  have hpos : 0 < m * 2 ^ (e - unit m e).toNat := Nat.mul_pos hm (Nat.two_pow_pos _)
  obtain ⟨m', e', h, hround, -, -, hge, hle, hcanonical⟩ :=
    round_spec s .exact hpos ((top_smaller hm e _).symm ▸ hlow)
  rw [top_smaller hm] at hge hle
  exact ⟨m', e', h, hround, hcanonical (by rw [unit_smaller hm]; omega), hge, hle⟩

/-- **A number with few bits is rounded to itself.** -/
theorem round_exact (s : Sign) (hm : 0 < m) (hunit : unit m e ≤ e) :
    UnpackedFloat.round Format.binary64 s m e =
      .finite s (m * 2 ^ (e - unit m e).toNat) (unit m e) (Nat.mul_pos hm (Nat.two_pow_pos _)) ∧
    Canonical (m * 2 ^ (e - unit m e).toNat) (unit m e) := by
  have hpos : 0 < m * 2 ^ (e - unit m e).toNat := Nat.mul_pos hm (Nat.two_pow_pos _)
  have hexp : e - (e - unit m e).toNat = unit m e := by omega
  have hself : unit (m * 2 ^ (e - unit m e).toNat) (unit m e) = unit m e := by
    have hsmaller := unit_smaller hm e (e - unit m e).toNat
    rwa [hexp] at hsmaller
  obtain ⟨r, -, -, hexact, hround⟩ :=
    exists_rounded s (m * 2 ^ (e - unit m e).toNat) (unit m e) .exact
  obtain rfl := hexact rfl hself.le
  have hbits : m * 2 ^ (e - unit m e).toNat < 2 ^ 53 := by
    have hlt := div_unit_lt (m * 2 ^ (e - unit m e).toNat) (unit m e)
    rwa [hself, Int.sub_self, Int.toNat_zero, Nat.pow_zero, Nat.div_one] at hlt
  refine ⟨?_, hbits, by simp only [unit]; omega, ?_⟩
  · rw [round_eq, hexp, hround, hself, max_self, rounded, dif_neg hpos.ne', if_pos hbits]
  · by_cases hmin : unit m e = -1074
    · exact Or.inr hmin
    · refine Or.inl ((Nat.le_log2 hpos.ne').1 ?_)
      rw [log2_mul_two_pow hm]
      simp only [unit, top] at hmin hunit ⊢
      omega

theorem exists_normalize {n : Int} (hn : n ≠ 0) (q : Int) (z : Sign) :
    ∃ s, UnpackedFloat.normalize Format.binary64 n q z = UnpackedFloat.round Format.binary64 s n.natAbs q := by
  delta UnpackedFloat.normalize
  rcases lt_or_gt_of_ne hn with hneg | hpos
  · have habs : n.natAbs = (-n).toNat := by omega
    exact ⟨.negative, by rw [compare_lt_iff_lt.2 hneg, habs]⟩
  · have habs : n.natAbs = n.toNat := by omega
    exact ⟨.positive, by rw [compare_gt_iff_gt.2 hpos, habs]⟩

theorem normalize_zero (q : Int) (z : Sign) : UnpackedFloat.normalize Format.binary64 0 q z = .zero z := by
  delta UnpackedFloat.normalize
  rw [compare_eq_iff_eq.2 rfl]

/-! ## Bits -/

/-- A double, by the numbers in the fields of its bits. -/
def ofFields (s : Sign) (exponent mantissa : Nat) : UnpackedFloat :=
  if exponent = 2047 then if mantissa = 0 then .infinity s else .notANumber
  else if exponent = 0 then if h : mantissa = 0 then .zero s else .finite s mantissa (-1074) (Nat.pos_of_ne_zero h)
  else .finite s (2 ^ 52 + mantissa) (exponent - 1075) (by omega)

theorem toNat_one_append (m : BitVec 52) : (1#1 ++ m).toNat = 2 ^ 52 + m.toNat := by
  rw [BitVec.toNat_append, ← Nat.shiftLeft_add_eq_or_of_lt m.isLt]
  rfl

theorem unpack_eq_ofFields (b : BitVec Format.binary64.numBits) : UnpackedFloat.unpack Format.binary64 b =
    ofFields (Sign.ofBitVec (unpackSign b)) (unpackExponent b).toNat (unpackMantissa b).toNat := by
  have hpos : ∀ m : BitVec 52, ¬ m = 0#52 → 0 < m.toNat := fun m h =>
    Nat.pos_of_ne_zero fun hzero => h (BitVec.eq_of_toNat_eq hzero)
  have hunpack : UnpackedFloat.unpack Format.binary64 b =
      if unpackExponent b = -1#11 then
        if unpackMantissa b = 0#52 then .infinity (Sign.ofBitVec (unpackSign b)) else .notANumber
      else if unpackExponent b = 0#11 then
        if h : unpackMantissa b = 0#52 then .zero (Sign.ofBitVec (unpackSign b))
        else .finite (Sign.ofBitVec (unpackSign b)) (unpackMantissa b).toNat
          ((unpackExponent b).toNat - (1023 + 52) + 1) (hpos _ h)
      else .finite (Sign.ofBitVec (unpackSign b)) (1#1 ++ unpackMantissa b).toNat
        ((unpackExponent b).toNat - (1023 + 52)) (by rw [toNat_one_append]; omega) := rfl
  have hall : ∀ e : BitVec 11, e = -1#11 ↔ e.toNat = 2047 := fun e => BitVec.toNat_inj.symm
  have hnone : ∀ e : BitVec 11, e = 0#11 ↔ e.toNat = 0 := fun e => BitVec.toNat_inj.symm
  have hempty : ∀ m : BitVec 52, m = 0#52 ↔ m.toNat = 0 := fun m => BitVec.toNat_inj.symm
  rw [hunpack, ofFields]
  split
  · rename_i h
    rw [if_pos ((hall _).1 h)]
    simp only [hempty]
  · rename_i h
    rw [if_neg (mt (hall _).2 h)]
    split
    · rename_i h
      have hzero := (hnone _).1 h
      rw [if_pos hzero]
      simp only [hempty, hzero]
      rfl
    · rename_i h
      rw [if_neg (mt (hnone _).2 h)]
      simp only [toNat_one_append]
      rfl

theorem sign_packComponents (s : Sign) (e : BitVec 11) (m : BitVec 52) :
    Sign.ofBitVec (unpackSign (packComponents Format.binary64 s e m)) = s := by
  change Sign.ofBitVec (((s.toBitVec ++ e ++ m).extractLsb' 63 1)) = s
  rw [BitVec.extractLsb'_append_eq_of_le (by omega), BitVec.extractLsb'_append_eq_of_le (by omega)]
  cases s <;> rfl

theorem unpack_packComponents (s : Sign) (e : BitVec 11) (m : BitVec 52) :
    UnpackedFloat.unpack Format.binary64 (packComponents Format.binary64 s e m) = ofFields s e.toNat m.toNat := by
  rw [unpack_eq_ofFields, sign_packComponents, unpackExponent_packComponents, unpackMantissa_packComponents]

theorem pack_finite (s : Sign) (m : Nat) (e : Int) (h : 0 < m) :
    UnpackedFloat.pack Format.binary64 (.finite s m e h) =
      if 2 ^ 11 ≤ (e + 1023 + 52).toNat + 1 then packedInfinity Format.binary64 s
      else if m.log2 + 1 = 53 then
        packComponents Format.binary64 s (BitVec.ofNat 11 (e + 1023 + 52).toNat) (BitVec.ofNat 52 m)
      else packComponents Format.binary64 s 0#11 (BitVec.ofNat 52 m) := rfl

theorem finite_congr {s : Sign} {m' : Nat} {e' : Int} {h : 0 < m} {h' : 0 < m'} (hm : m = m') (he : e = e') :
    UnpackedFloat.finite s m e h = .finite s m' e' h' := by
  subst hm he
  rfl

/-- What bits keep of a number of at most 53 bits: beyond the largest one it becomes infinite, and with less bits it
is read in the least units. -/
theorem unpack_pack_bits (s : Sign) (h : 0 < m) (hbits : m < 2 ^ 53) (hleast : -1074 ≤ e) :
    (Float.Model.pack (.finite s m e h)).unpack =
      if e ≤ 971 then .finite s m (if m < 2 ^ 52 then -1074 else e) h else .infinity s := by
  change UnpackedFloat.unpack Format.binary64 (UnpackedFloat.pack Format.binary64 (.finite s m e h)) = _
  rw [pack_finite]
  by_cases hlarge : e ≤ 971
  · rw [if_neg (by omega), if_pos hlarge]
    rcases Nat.lt_or_ge m (2 ^ 52) with hm | hm
    · have hlog : m.log2 + 1 ≠ 53 := by have := log2_le_of_lt hm; omega
      rw [if_neg hlog, if_pos hm, unpack_packComponents, BitVec.toNat_ofNat, BitVec.toNat_ofNat, Nat.mod_eq_of_lt hm]
      exact dif_neg h.ne'
    · have hlog : m.log2 + 1 = 53 := by
        have := log2_le_of_lt hbits
        have := (Nat.le_log2 h.ne').2 hm
        omega
      have hrest : m % 2 ^ 52 = m - 2 ^ 52 := by omega
      have hexp : (e + 1023 + 52).toNat % 2 ^ 11 = (e + 1075).toNat := by omega
      rw [if_pos hlog, if_neg (Nat.not_lt.2 hm), unpack_packComponents, BitVec.toNat_ofNat, BitVec.toNat_ofNat, hrest,
        hexp, ofFields, if_neg (by omega), if_neg (by omega)]
      exact finite_congr (by omega) (by omega)
  · rw [if_pos (by omega), if_neg hlarge]
    exact unpack_packComponents s (-1#11) 0#52

/-- **A number in its units is kept by its bits.** -/
theorem unpack_pack (s : Sign) (h : 0 < m) (hc : Canonical m e) (he : e ≤ 971) :
    (Float.Model.pack (.finite s m e h)).unpack = .finite s m e h := by
  rw [unpack_pack_bits s h hc.bits hc.least, if_pos he]
  refine finite_congr rfl ?_
  split
  · exact (hc.full.resolve_left (by omega)).symm
  · rfl

end ModelExport.Double
