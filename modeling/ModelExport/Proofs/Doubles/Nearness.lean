import ModelExport.Proofs.Doubles.Arithmetic

/-!
# Proofs/Doubles/Nearness — which doubles are near one

    |r - 1| < 10 ^ -6

The difference of a double and one is exact when the two are near each other, and at least a half otherwise.  So a
comparison in doubles gives the same answer as one of the numbers themselves (`abs_sub_one_lt_iff`), although the
bound is none of the doubles.
-/

namespace ModelExport

/-- **The number that a double is**; infinities and what is no number are none. -/
def Binary.value? : Binary → Option ℚ
  | .finite negative m q => some ((if negative then -1 else 1) * m * 2 ^ q)
  | _ => none

/-- **Within a millionth of one**, exactly. -/
def NearOne (r : Float) : Prop := ∃ v, (Binary.ofFloat r).value? = some v ∧ |v - 1| < 1 / 10 ^ 6

namespace Double

open Float.Model Float.Model.UnpackedFloat

/-! ## Order of numbers -/

theorem two_zpow_pos (e : Int) : (0 : ℚ) < 2 ^ e := zpow_pos two_pos e

theorem smaller_units (a : Nat) {e q : Int} (hq : q ≤ e) : ((a * 2 ^ (e - q).toNat : Nat) : ℚ) * 2 ^ q = a * 2 ^ e := by
  rw [Nat.cast_mul, mul_assoc, Nat.cast_pow, Nat.cast_ofNat, ← zpow_natCast, ← zpow_add₀ two_ne_zero,
    Int.toNat_of_nonneg (by omega), Int.sub_add_cancel]

theorem mul_zpow_lt {a b : Nat} {e f : Int} (ha : a < 2 ^ 53) (hb : 2 ^ 52 ≤ b) (hef : e < f) :
    (a : ℚ) * 2 ^ e < b * 2 ^ f := by
  have ha' : (a : ℚ) < 2 ^ 53 := by exact_mod_cast ha
  have hb' : (2 : ℚ) ^ 52 ≤ b := by exact_mod_cast hb
  calc (a : ℚ) * 2 ^ e < 2 ^ 53 * 2 ^ e := mul_lt_mul_of_pos_right ha' (two_zpow_pos e)
    _ = 2 ^ 52 * 2 ^ (e + 1) := by rw [zpow_add_one₀ two_ne_zero]; ring
    _ ≤ 2 ^ 52 * 2 ^ f := mul_le_mul_of_nonneg_left (zpow_le_zpow_right₀ one_le_two hef) (by positivity)
    _ ≤ b * 2 ^ f := mul_le_mul_of_nonneg_right hb' (two_zpow_pos f).le

/-- **Numbers in their units are ordered by exponents first.** -/
theorem compare_canonical {a b : Nat} {e f : Int} (ha : Canonical a e) (hb : Canonical b f) :
    (compare e f).then (compare a b) = .lt ↔ (a : ℚ) * 2 ^ e < b * 2 ^ f := by
  rcases lt_trichotomy e f with h | rfl | h
  · have hfull : 2 ^ 52 ≤ b := hb.full.resolve_right (by have := ha.least; omega)
    rw [compare_lt_iff_lt.2 h]
    exact iff_of_true rfl (mul_zpow_lt ha.bits hfull h)
  · rw [compare_eq_iff_eq.2 rfl, mul_lt_mul_iff_left₀ (two_zpow_pos e), Nat.cast_lt]
    exact compare_lt_iff_lt
  · have hfull : 2 ^ 52 ≤ a := ha.full.resolve_right (by have := hb.least; omega)
    rw [compare_gt_iff_gt.2 h]
    exact iff_of_false nofun (mul_zpow_lt hb.bits hfull h).not_gt

/-! ## A millionth -/

theorem reading_millionth : reading 1e-6 = .finite .positive 4722366482869645 (-72) (by omega) := rfl

/-- **Below the double that stands for a millionth.** -/
def Small (u : UnpackedFloat) : Prop := UnpackedFloat.compare u.abs (reading 1e-6) = some .lt

theorem abs_lt_millionth_iff {x : Float} : x.abs < 1e-6 ↔ Small (reading x) := by
  rw [lt_iff, reading_abs, Small]

theorem canonical_millionth : Canonical 4722366482869645 (-72) := ⟨by omega, by omega, Or.inl (by omega)⟩

theorem small_finite_iff (s : Sign) {m : Nat} {e : Int} (h : 0 < m) (hc : Canonical m e) :
    Small (.finite s m e h) ↔ (m : ℚ) * 2 ^ e < (4722366482869645 : Nat) * 2 ^ (-72 : Int) := by
  rw [Small, reading_millionth, ← compare_canonical hc canonical_millionth]
  exact Option.some_inj

theorem small_infinity (s : Sign) : ¬ Small (.infinity s) := by
  rw [Small, reading_millionth]
  exact nofun

variable {n q : Int} (z : Sign)

theorem small_normalize_iff (hn : n ≠ 0) (hunit : unit n.natAbs q ≤ q) (hq : q ≤ 971) :
    Small (Float.Model.pack (UnpackedFloat.normalize Format.binary64 n q z)).unpack ↔
      (n.natAbs : ℚ) * 2 ^ q < (4722366482869645 : Nat) * 2 ^ (-72 : Int) := by
  obtain ⟨s, hs⟩ := exists_normalize hn q z
  obtain ⟨hround, hc⟩ := round_exact s (Int.natAbs_pos.2 hn) hunit
  rw [hs, hround, unpack_pack s _ hc (by omega), small_finite_iff s _ hc, smaller_units _ hunit]

/-- A half is not below a millionth, and neither is what it is rounded to. -/
theorem not_small_normalize (hn : n ≠ 0) (hhalf : -1 ≤ top n.natAbs q) :
    ¬ Small (Float.Model.pack (UnpackedFloat.normalize Format.binary64 n q z)).unpack := by
  obtain ⟨s, hs⟩ := exists_normalize hn q z
  obtain ⟨m, e, h, hround, hc, htop, -⟩ := round_number (e := q) s (Int.natAbs_pos.2 hn) (by omega)
  have hlog := log2_le_of_lt hc.bits
  have he : -53 ≤ e := by simp only [top] at hhalf htop; omega
  rw [hs, hround, unpack_pack_bits s h hc.bits hc.least]
  split
  · have hfull : 2 ^ 52 ≤ m := hc.full.resolve_right (by omega)
    rw [if_neg (Nat.not_lt.2 hfull), small_finite_iff s h hc]
    exact (mul_zpow_lt canonical_millionth.bits hfull (by omega)).not_gt
  · exact small_infinity s

/-! ## Differences from one -/

/-- The difference of a number and one, in the smaller units of the two. -/
def oneLess (m : Nat) (e : Int) : Int :=
  (m * 2 ^ (e - min e (-52)).toNat : Nat) - (2 ^ 52 * 2 ^ (-52 - min e (-52)).toNat : Nat)

theorem oneLess_value (m : Nat) (e : Int) : (oneLess m e : ℚ) * 2 ^ min e (-52) = m * 2 ^ e - 1 := by
  rw [oneLess, Int.cast_sub, Int.cast_natCast, Int.cast_natCast, sub_mul, smaller_units m (min_le_left ..),
    smaller_units (2 ^ 52) (min_le_right ..)]
  norm_num

/-- **A number is within a factor of two of one, and the difference has few bits, or the difference is at least a
half.** -/
theorem oneLess_cases {m : Nat} {e : Int} (hc : Canonical m e) :
    (e = -53 ∨ e = -52) ∧ (oneLess m e).natAbs ≤ 2 ^ 52 ∨
      oneLess m e ≠ 0 ∧ -1 ≤ top (oneLess m e).natAbs (min e (-52)) := by
  have hbits := hc.bits
  rcases le_or_gt e (-54) with hlow | hlow
  · -- far below one
    refine Or.inr ?_
    have hmin : min e (-52) = e := by omega
    have hpow : (2 : Nat) ^ 53 ≤ 2 ^ (-1 - e).toNat := Nat.pow_le_pow_right (by decide) (by omega)
    have hone : 2 ^ 52 * 2 ^ (-52 - e).toNat = 2 * 2 ^ (-1 - e).toNat := by
      rw [← Nat.pow_add, ← Nat.pow_succ']
      congr 1
      omega
    have hless : 2 ^ (-1 - e).toNat ≤ (oneLess m e).natAbs := by
      rw [oneLess, hmin, hone, Int.sub_self, Int.toNat_zero, Nat.pow_zero, Nat.mul_one]
      omega
    have hlog := (Nat.le_log2 (by omega)).2 hless
    refine ⟨by omega, ?_⟩
    simp only [top, hmin]
    omega
  · have hfull : 2 ^ 52 ≤ m := hc.full.resolve_right (by omega)
    rcases le_or_gt (-51) e with hhigh | hhigh
    · -- far above one
      refine Or.inr ?_
      have hmin : min e (-52) = -52 := by omega
      have hpow : (2 : Nat) ^ 1 ≤ 2 ^ (e - -52).toNat := Nat.pow_le_pow_right (by decide) (by omega)
      have htwice : 2 ^ 52 * 2 ^ 1 ≤ m * 2 ^ (e - -52).toNat := Nat.mul_le_mul hfull hpow
      have hless : 2 ^ 52 ≤ (oneLess m e).natAbs := by
        rw [oneLess, hmin, Int.sub_self, Int.toNat_zero, Nat.pow_zero, Nat.mul_one]
        omega
      have hlog := (Nat.le_log2 (by omega)).2 hless
      refine ⟨by omega, ?_⟩
      simp only [top, hmin]
      omega
    · obtain rfl | rfl : e = -53 ∨ e = -52 := by omega
      · refine Or.inl ⟨Or.inl rfl, ?_⟩
        change ((m * 2 ^ 0 : Nat) - (2 ^ 52 * 2 ^ 1 : Nat) : Int).natAbs ≤ 2 ^ 52
        omega
      · refine Or.inl ⟨Or.inr rfl, ?_⟩
        change ((m * 2 ^ 0 : Nat) - (2 ^ 52 * 2 ^ 0 : Nat) : Int).natAbs ≤ 2 ^ 52
        omega

theorem reading_sub_one {r : Float} {m : Nat} {e : Int} {h : 0 < m} (hr : reading r = .finite .positive m e h) :
    reading (r - 1.0) =
      (Float.Model.pack (UnpackedFloat.normalize Format.binary64 (oneLess m e) (min e (-52)) .positive)).unpack := by
  change (Float.Model.pack (UnpackedFloat.sub Format.binary64 (reading r) (reading 1.0))).unpack = _
  rw [hr, reading_one, oneLess, ← Nat.shiftLeft_eq, ← Nat.shiftLeft_eq]
  rfl

/-- At these places there is no number between a millionth and the double that stands for it. -/
theorem lt_millionth_iff {k : Nat} {q : Int} (hq : q = -53 ∨ q = -52) :
    (k : ℚ) * 2 ^ q < (4722366482869645 : Nat) * 2 ^ (-72 : Int) ↔ (k : ℚ) * 2 ^ q < 1 / 10 ^ 6 := by
  have hpow : ∀ (a j : Nat) (f : Int), f = -j → (a : ℚ) * 2 ^ f = a / (2 ^ j : Nat) := fun a j f hf => by
    rw [hf, zpow_neg, zpow_natCast, ← div_eq_mul_inv, Nat.cast_pow, Nat.cast_ofNat]
  have hlt : ∀ a b c d : Nat, 0 < b → 0 < d → ((a : ℚ) / b < c / d ↔ a * d < c * b) := fun a b c d hb hd => by
    rw [div_lt_div_iff₀ (Nat.cast_pos.2 hb) (Nat.cast_pos.2 hd)]
    exact_mod_cast Iff.rfl
  have hmillionth : (1 : ℚ) / 10 ^ 6 = (1 : Nat) / (10 ^ 6 : Nat) := by norm_num
  rw [hmillionth, hpow _ 72 (-72) rfl]
  obtain rfl | rfl := hq
  · rw [hpow k 53 (-53) rfl, hlt _ _ _ _ (by decide) (by decide), hlt _ _ _ _ (by decide) (by decide)]
    omega
  · rw [hpow k 52 (-52) rfl, hlt _ _ _ _ (by decide) (by decide), hlt _ _ _ _ (by decide) (by decide)]
    omega

theorem not_lt_millionth {k : Nat} {q : Int} (hk : k ≠ 0) (hhalf : -1 ≤ top k q) : ¬ (k : ℚ) * 2 ^ q < 1 / 10 ^ 6 := by
  have hlow : ((2 ^ k.log2 : Nat) : ℚ) ≤ k := Nat.cast_le.2 (Nat.log2_self_le hk)
  refine not_lt.2 ?_
  calc (1 : ℚ) / 10 ^ 6 ≤ 2 ^ (-1 : Int) := by norm_num
    _ ≤ 2 ^ top k q := zpow_le_zpow_right₀ one_le_two hhalf
    _ = (2 ^ k.log2 : Nat) * 2 ^ q := by
      rw [top, zpow_add₀ two_ne_zero, zpow_natCast, Nat.cast_pow, Nat.cast_ofNat]
    _ ≤ k * 2 ^ q := mul_le_mul_of_nonneg_right hlow (two_zpow_pos q).le

variable {r : Float}

/-- **A comparison with one in doubles is exact.** -/
theorem abs_sub_one_lt_iff (hr : 0.0 < r) : (r - 1.0).abs < 1e-6 ↔ NearOne r := by
  rw [abs_lt_millionth_iff, NearOne, ofFloat_eq]
  obtain ⟨u, hu⟩ : ∃ u, reading r = u := ⟨_, rfl⟩
  have hpos := zero_lt_iff.1 hr
  rw [hu] at hpos ⊢
  cases hpos with
  | infinity =>
    have hinfinite : reading (r - 1.0) = .infinity .positive := by
      change (Float.Model.pack (UnpackedFloat.sub Format.binary64 (reading r) (reading 1.0))).unpack = _
      rw [hu, reading_one]
      rfl
    rw [hinfinite]
    exact iff_of_false (small_infinity _) fun ⟨v, hv, _⟩ => nomatch hv
  | finite m e h =>
    obtain ⟨hc, he⟩ := canonical_reading hu
    have hvalue : ∀ v, (toBinary (.finite .positive m e h)).value? = some v ↔ (m : ℚ) * 2 ^ e = v := fun v => by
      change some ((1 : ℚ) * m * 2 ^ e) = some v ↔ _
      rw [one_mul, Option.some_inj]
    have habs : |(m : ℚ) * 2 ^ e - 1| = (oneLess m e).natAbs * 2 ^ min e (-52) := by
      rw [← oneLess_value, abs_mul, abs_of_pos (two_zpow_pos _), Nat.cast_natAbs, Int.cast_abs]
    simp only [hvalue, exists_eq_left']
    rw [reading_sub_one hu, habs]
    rcases oneLess_cases hc with ⟨hnear, hfew⟩ | ⟨hne, hhalf⟩
    · by_cases hzero : oneLess m e = 0
      · rw [hzero, normalize_zero, Int.natAbs_zero, Nat.cast_zero, zero_mul]
        exact iff_of_true rfl (by positivity)
      · have hlog := log2_le_of_lt (k := 52) (hfew.trans_lt (by decide))
        rw [small_normalize_iff .positive hzero (by simp only [unit, top]; omega) (by omega)]
        exact lt_millionth_iff (by omega)
    · exact iff_of_false (not_small_normalize .positive hne hhalf) (not_lt_millionth (Int.natAbs_ne_zero.2 hne) hhalf)

end Double

end ModelExport
