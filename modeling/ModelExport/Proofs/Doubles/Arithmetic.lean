import ModelExport.Proofs.Doubles.Rounding
import ModelExport.Value.Arithmetic

/-!
# Proofs/Doubles/Arithmetic — what doubles are, and their signs

A double is read off its bits in two ways that agree (`ofFloat_eq`).  What is greater than zero has a root and an
inverse greater than zero, since neither is below the least unit (`sqrt_pos`, `one_div_pos`).
-/

namespace ModelExport.Double

open Float.Model Float.Model.UnpackedFloat

variable {m : Nat} {e : Int} {x : Float}

/-- **A double, read.** -/
def reading (x : Float) : UnpackedFloat := x.toModel.unpack

theorem reading_zero : reading 0.0 = .zero .positive := rfl

theorem reading_half : reading 0.5 = .finite .positive (2 ^ 52) (-53) (Nat.two_pow_pos 52) := rfl

theorem reading_one : reading 1.0 = .finite .positive (2 ^ 52) (-52) (Nat.two_pow_pos 52) := rfl

theorem canonical_ofFields {s t : Sign} {E M : Nat} {h : 0 < m} (hE : E < 2 ^ 11) (hM : M < 2 ^ 52)
    (heq : ofFields s E M = .finite t m e h) : Canonical m e ∧ e ≤ 971 := by
  unfold ofFields at heq
  split at heq
  · split at heq <;> cases heq
  · split at heq
    · split at heq
      · cases heq
      · cases heq
        exact ⟨⟨by omega, by decide, Or.inr rfl⟩, by decide⟩
    · cases heq
      exact ⟨⟨by omega, by omega, Or.inl (by omega)⟩, by omega⟩

/-- A double is kept in its units. -/
theorem canonical_reading {s : Sign} {h : 0 < m} (hx : reading x = .finite s m e h) : Canonical m e ∧ e ≤ 971 :=
  canonical_ofFields (BitVec.isLt _) (BitVec.isLt _) ((unpack_eq_ofFields _).symm.trans hx)

theorem unpack_pack_reading (x : Float) : (Float.Model.pack (reading x)).unpack = reading x := by
  obtain ⟨u, hu⟩ : ∃ u, reading x = u := ⟨_, rfl⟩
  rw [hu]
  cases u with
  | notANumber => rfl
  | infinity s => cases s <;> rfl
  | zero s => cases s <;> rfl
  | finite s m e h =>
    obtain ⟨hc, he⟩ := canonical_reading hu
    exact unpack_pack s h hc he

theorem reading_abs (x : Float) : reading x.abs = (reading x).abs := by
  change (Float.Model.pack (reading x).abs).unpack = _
  obtain ⟨u, hu⟩ : ∃ u, reading x = u := ⟨_, rfl⟩
  rw [hu]
  cases u with
  | notANumber => rfl
  | infinity s => exact (rfl : (Float.Model.pack (.infinity .positive)).unpack = .infinity .positive)
  | zero s => exact (rfl : (Float.Model.pack (.zero .positive)).unpack = .zero .positive)
  | finite s m e h =>
    obtain ⟨hc, he⟩ := canonical_reading hu
    exact unpack_pack .positive h hc he

/-! ## The exact reading -/

/-- The exact reading of a double, from what it is. -/
def toBinary : UnpackedFloat → Binary
  | .notANumber => .nan
  | .infinity s => .infinite (s == .negative)
  | .zero s => .finite (s == .negative) 0 (-1074)
  | .finite s m e _ => .finite (s == .negative) m e

theorem toNat_unpackExponent (b : BitVec Format.binary64.numBits) :
    (unpackExponent b).toNat = b.toNat / 2 ^ 52 % 2 ^ 11 := by
  change (b.toNat >>> 52) % 2 ^ 11 = _
  rw [Nat.shiftRight_eq_div_pow]

theorem toNat_unpackMantissa (b : BitVec Format.binary64.numBits) :
    (unpackMantissa b).toNat = b.toNat % 2 ^ 52 := rfl

theorem sign_unpackSign (b : BitVec Format.binary64.numBits) :
    (Sign.ofBitVec (unpackSign b) == .negative) = (b.toNat / 2 ^ 63 == 1) := by
  have hbit : (unpackSign b).toNat = b.toNat / 2 ^ 63 := by
    change (b.toNat >>> 63) % 2 ^ 1 = _
    rw [Nat.shiftRight_eq_div_pow]
    have hlt : b.toNat < 2 ^ 64 := b.isLt
    omega
  rw [← hbit]
  have hall : ∀ c : BitVec 1, (Sign.ofBitVec c == .negative) = (c.toNat == 1) := by decide
  exact hall _

theorem toBinary_ofFields (s : Sign) (E M : Nat) : toBinary (ofFields s E M) =
    if E = 2047 then if M = 0 then .infinite (s == .negative) else .nan
    else if E = 0 then .finite (s == .negative) M (-1074)
    else .finite (s == .negative) (2 ^ 52 + M) (E - 1075) := by
  unfold ofFields
  split
  · split <;> rfl
  · split
    · split
      · rename_i h
        rw [h]
        rfl
      · rfl
    · rfl

/-- **The exact reading of a double** is that of what it is. -/
theorem ofFloat_eq (x : Float) : Binary.ofFloat x = toBinary (reading x) := by
  obtain ⟨b, hb⟩ : ∃ b : BitVec Format.binary64.numBits,
      reading x = UnpackedFloat.unpack Format.binary64 b ∧ x.toBits.toNat = b.toNat := ⟨_, rfl, rfl⟩
  rw [hb.1, unpack_eq_ofFields, toBinary_ofFields, toNat_unpackExponent, toNat_unpackMantissa, sign_unpackSign, ← hb.2]
  simp only [Binary.ofFloat, beq_iff_eq, Nat.add_comm (2 ^ 52)]
  rfl

/-! ## Order -/

theorem lt_iff {y : Float} : x < y ↔ UnpackedFloat.compare (reading x) (reading y) = some .lt := by
  change decide ((UnpackedFloat.compare (reading x) (reading y) == some .lt) = true) = true ↔ _
  rw [decide_eq_true_iff, beq_iff_eq]

/-- What is greater than zero. -/
inductive Positive : UnpackedFloat → Prop
  | infinity : Positive (.infinity .positive)
  | finite (m : Nat) (e : Int) (h : 0 < m) : Positive (.finite .positive m e h)

theorem positive_of_compare {u : UnpackedFloat}
    (h : UnpackedFloat.compare (.zero .positive) u = some .lt) : Positive u := by
  cases u with
  | notANumber => cases h
  | infinity s =>
    cases s with
    | negative => cases h
    | positive => exact .infinity
  | zero s => cases h
  | finite s m e hm =>
    cases s with
    | negative => cases h
    | positive => exact .finite m e hm

namespace Positive

variable {u v : UnpackedFloat}

theorem compare_zero (h : Positive u) : UnpackedFloat.compare u (.zero .positive) = some .gt := by
  cases h <;> rfl

theorem zero_compare (h : Positive u) : UnpackedFloat.compare (.zero .positive) u = some .lt := by
  cases h <;> rfl

/-- A number of at most 53 bits stays greater than zero. -/
theorem unpack_pack (h : 0 < m) (hbits : m < 2 ^ 53) (hleast : -1074 ≤ e) :
    Positive (Float.Model.pack (.finite .positive m e h)).unpack := by
  rw [unpack_pack_bits .positive h hbits hleast]
  split
  · exact .finite ..
  · exact .infinity

theorem round (a : Accuracy) (hm : 0 < m) (hlow : -1074 ≤ top m e) :
    Positive (Float.Model.pack (roundWithAccuracy Format.binary64 .positive m e a)).unpack := by
  obtain ⟨m', e', h, hround, hbits, hleast, -⟩ := round_spec .positive a hm hlow
  rw [hround]
  exact unpack_pack h hbits hleast

theorem le_log2_sqrt {n k : Nat} (hn : 0 < n) (hk : 2 * k ≤ n.log2) : k ≤ (Nat.sqrt n).log2 := by
  have hsquare : 2 ^ k ≤ Nat.sqrt n := Nat.le_sqrt.2 (by
    rw [← Nat.pow_add, ← Nat.two_mul]
    exact (Nat.pow_le_pow_right (by decide) hk).trans (Nat.log2_self_le hn.ne'))
  exact (Nat.le_log2 (Nat.sqrt_pos.2 hn).ne').2 hsquare

theorem sqrt (hm : 0 < m) (hleast : -1074 ≤ e) :
    Positive (Float.Model.pack (UnpackedFloat.sqrt Format.binary64 (.finite .positive m e hm))).unpack := by
  let t := min (e.ediv 2) (Format.binary64.targetExponent ((totalExponent m e + 1).ediv 2))
  obtain ⟨a, ha⟩ : ∃ a, UnpackedFloat.sqrt Format.binary64 (.finite .positive m e hm) =
      roundWithAccuracy Format.binary64 .positive (Nat.sqrt (m <<< (e - 2 * t).toNat)) t a := ⟨_, rfl⟩
  have hpos : 0 < m * 2 ^ (e - 2 * t).toNat := Nat.mul_pos hm (Nat.two_pow_pos _)
  rw [ha, Nat.shiftLeft_eq]
  refine round a (Nat.sqrt_pos.2 hpos) ?_
  have hlog := le_log2_sqrt (k := (m.log2 + (e - 2 * t).toNat) / 2) hpos (by rw [log2_mul_two_pow hm]; omega)
  have ht : t ≤ e.ediv 2 := min_le_left ..
  simp only [top]
  omega

/-- An inverse is not below the least unit. -/
theorem one_div (hm : 0 < m) (hc : Canonical m e) (he : e ≤ 971) :
    Positive (Float.Model.pack (UnpackedFloat.div Format.binary64
      (.finite .positive (2 ^ 52) (-52) (Nat.two_pow_pos 52)) (.finite .positive m e hm))).unpack := by
  obtain ⟨t, ht⟩ : ∃ t, t = min (-52 - e) (Format.binary64.targetExponent
      (totalExponent (2 ^ 52) (-52) - totalExponent m e)) := ⟨_, rfl⟩
  obtain ⟨a, ha⟩ : ∃ a, UnpackedFloat.div Format.binary64 (.finite .positive (2 ^ 52) (-52) (Nat.two_pow_pos 52))
      (.finite .positive m e hm) =
        roundWithAccuracy Format.binary64 .positive (2 ^ 52 <<< (-52 - e - t).toNat / m) t a := ⟨_, by rw [ht]; rfl⟩
  have htarget : t = min (-52 - e) (max (-(m.log2 + e) - 53) (-1074)) := by
    rw [ht]
    change min _ (max (((2 ^ 52 : Nat).log2 + 1 + (-52) : Int) - (m.log2 + 1 + e) - 53) (-1074)) = _
    rw [Nat.log2_two_pow]
    congr 2
    omega
  have hlog := log2_le_of_lt hc.bits
  obtain ⟨k, hk⟩ : ∃ k, k = (-52 - e - t).toNat := ⟨_, rfl⟩
  have henough : m.log2 + 1 ≤ 52 + k := by omega
  have hquot : 2 ^ (52 + k - (m.log2 + 1)) ≤ 2 ^ 52 <<< k / m := by
    rw [Nat.shiftLeft_eq, ← Nat.pow_add, Nat.le_div_iff_mul_le hm]
    refine (Nat.mul_le_mul_left _ Nat.lt_log2_self.le).trans ?_
    rw [← Nat.pow_add, Nat.sub_add_cancel henough]
  have hpos := Nat.lt_of_lt_of_le (Nat.two_pow_pos _) hquot
  rw [ha, ← hk]
  refine round a hpos ?_
  have hfirst := (Nat.le_log2 hpos.ne').2 hquot
  simp only [top]
  omega

theorem mul_compare (hu : Positive u) (hv : Positive v) :
    UnpackedFloat.compare (Float.Model.pack (UnpackedFloat.mul Format.binary64 u v)).unpack (.zero .positive) ≠
      some .lt := by
  have hgt : some Ordering.gt ≠ some .lt := nofun
  have hinfinity : UnpackedFloat.compare (Float.Model.pack (.infinity .positive)).unpack (.zero .positive) ≠
      some .lt := hgt
  cases hu with
  | infinity => cases hv <;> exact hinfinity
  | finite m e h =>
    cases hv with
    | infinity => exact hinfinity
    | finite n f h' =>
      change UnpackedFloat.compare (Float.Model.pack
        (roundWithAccuracy Format.binary64 .positive (m * n) (e + f) .exact)).unpack _ ≠ _
      by_cases hlow : -1074 ≤ top (m * n) (e + f)
      · rwa [(round .exact (Nat.mul_pos h h') hlow).compare_zero]
      · rcases round_below .positive .exact (Int.not_le.1 hlow) with hround | hround
        · rw [hround]
          nofun
        · rwa [hround, (unpack_pack Nat.one_pos (by decide) (by decide)).compare_zero]

end Positive

theorem zero_lt_iff : 0.0 < x ↔ Positive (reading x) := by
  rw [lt_iff, reading_zero]
  exact ⟨positive_of_compare, Positive.zero_compare⟩

variable {x y : Float}

theorem not_lt_zero (hx : 0.0 < x) : ¬ x < 0.0 := by
  rw [lt_iff, reading_zero, (zero_lt_iff.1 hx).compare_zero]
  nofun

theorem beq_zero (hx : 0.0 < x) : (x == 0.0) = false := by
  change (UnpackedFloat.compare (reading x) (reading 0.0) == some .eq) = false
  rw [reading_zero, (zero_lt_iff.1 hx).compare_zero]
  rfl

/-- **A root is greater than zero.** -/
theorem sqrt_pos (hx : 0.0 < x) : 0.0 < x.sqrt := by
  rw [zero_lt_iff] at hx ⊢
  change Positive (Float.Model.pack (UnpackedFloat.sqrt Format.binary64 (reading x))).unpack
  obtain ⟨u, hu⟩ : ∃ u, reading x = u := ⟨_, rfl⟩
  rw [hu] at hx ⊢
  cases hx with
  | infinity => exact .infinity
  | finite m e h => exact .sqrt h (canonical_reading hu).1.least

/-- **The inverse of a finite number is greater than zero.** -/
theorem one_div_pos (hx : 0.0 < x) (hfinite : x.isFinite = true) : 0.0 < 1.0 / x := by
  rw [zero_lt_iff] at hx ⊢
  change Positive (Float.Model.pack (UnpackedFloat.div Format.binary64 (reading 1.0) (reading x))).unpack
  change UnpackedFloat.isFinite (reading x) = true at hfinite
  rw [reading_one]
  obtain ⟨u, hu⟩ : ∃ u, reading x = u := ⟨_, rfl⟩
  rw [hu] at hx hfinite ⊢
  cases hx with
  | infinity => cases hfinite
  | finite m e h =>
    obtain ⟨hc, he⟩ := canonical_reading hu
    exact .one_div h hc he

theorem mul_not_lt_zero (hx : 0.0 < x) (hy : 0.0 < y) : ¬ x * y < 0.0 := by
  rw [lt_iff, reading_zero]
  exact (zero_lt_iff.1 hx).mul_compare (zero_lt_iff.1 hy)

end ModelExport.Double
