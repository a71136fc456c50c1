import Mathlib
import Compander.Proofs.Floating.Bounds

/-!
# From doubles to singles

The single nearest to a double is finite exactly if the double is finite and lies below the middle
between the greatest single and the next power of two:

* `Binary.exists_encode` — what the bits of the nearest single are, and when they are those of
  infinity;
* `Double.FitsSingle` — doubles that are not too large for a single;
* `Double.isFinite_narrow_iff` — these are the doubles whose nearest single is finite;
* `Double.isNaN_narrow` — the nearest single is a number if the double is.

A curve is drawn in doubles and stored in singles, so it is not enough for a coefficient to be
finite when it is drawn. The exact bound matters too: a coefficient between the greatest single
and the middle is still stored as a finite one.
-/

namespace Compander

/-! ## Rounding to a whole number -/

/-- An even number is reached from a half below it on, as a tie goes to the even one. -/
theorem Double.Nearest.even_le_iff {M n : ℕ} {w : ℚ} (h : Double.Nearest M w) (hn : n % 2 = 0) :
    n ≤ M ↔ (n : ℚ) - 1 / 2 ≤ w := by
  constructor
  · intro hle
    have hcast : (n : ℚ) ≤ M := by exact_mod_cast hle
    linarith [h.lower]
  · intro hw
    by_contra hlt
    -- the number is a tie between its neighbours, and the lower one is odd
    have hcast : (M : ℚ) + 1 ≤ n := by exact_mod_cast (by omega : M + 1 ≤ n)
    have htie : w = M + 1 / 2 := le_antisymm h.upper (by linarith)
    have hnext : (n : ℚ) = M + 1 := by linarith
    have hnext' : n = M + 1 := by exact_mod_cast hnext
    have heven := h.even_of_tie (.inr htie)
    omega

namespace Binary

variable {b : Binary} {magnitude : ℕ}

/-- A quotient is rounded to the nearest whole number, and to the even one of two. -/
theorem nearest_divideToEven (num : ℕ) {den : ℕ} (hden : 0 < den) :
    Double.Nearest (divideToEven num den) ((num : ℚ) / den) := by
  have hpos : (0 : ℚ) < den := by exact_mod_cast hden
  have hquotient : (num : ℚ) / den = (num / den : ℕ) + (num % den : ℕ) / (den : ℚ) := by
    rw [eq_comm, ← eq_sub_iff_add_eq', div_sub' hpos.ne', div_left_inj' hpos.ne']
    exact eq_sub_of_add_eq' (by exact_mod_cast Nat.div_add_mod num den)
  have hless : ((num % den : ℕ) : ℚ) / den < 1 := by
    rw [div_lt_one hpos]
    exact_mod_cast Nat.mod_lt num hden
  have hnonneg : 0 ≤ ((num % den : ℕ) : ℚ) / den := by positivity
  have hmore : den < 2 * (num % den) ↔ 1 / 2 < ((num % den : ℕ) : ℚ) / den := by
    rw [lt_div_iff₀ hpos, ← mul_lt_mul_iff_right₀ (two_pos (α := ℚ)), ← mul_assoc]
    norm_num
    exact_mod_cast Iff.rfl
  have htie : den = 2 * (num % den) ↔ 1 / 2 = ((num % den : ℕ) : ℚ) / den := by
    rw [eq_div_iff hpos.ne', ← mul_right_inj' (two_ne_zero (α := ℚ)), ← mul_assoc]
    norm_num
    exact_mod_cast Iff.rfl
  simp only [divideToEven, hmore, htie, hquotient]
  generalize ((num % den : ℕ) : ℚ) / den = rest at hless hnonneg
  generalize num / den = whole
  split
  · rename_i hup
    have hhalf : 1 / 2 ≤ rest := hup.elim le_of_lt fun h => h.1.le
    refine ⟨by push_cast; linarith, by push_cast; linarith, fun hends => ?_⟩
    push_cast at hends
    rcases hup with hlt | ⟨-, hodd⟩
    · exfalso
      rcases hends with hlow | hhigh <;> linarith
    · omega
  · rename_i hdown
    have hhalf : rest ≤ 1 / 2 := not_lt.mp fun hlt => hdown (.inl hlt)
    refine ⟨by linarith, by linarith, fun hends => ?_⟩
    have hrest : 1 / 2 = rest := by rcases hends with hlow | hhigh <;> linarith
    exact Nat.mod_two_ne_one.mp fun hodd => hdown (.inr ⟨hrest, hodd⟩)

/-! ## Bits of singles -/

/-- Bits below those of infinity, with a sign, are those that have an exact value. -/
theorem exists_decode_iff (negative : Bool) (h : magnitude < 2 ^ 31) :
    (∃ b, Format.single.decode ((if negative then 2 ^ 31 else 0) + magnitude) = some b) ↔
      magnitude < 255 * 2 ^ 23 := by
  have hmagnitude : ((if negative then 2 ^ 31 else 0) + magnitude) % 2 ^ 31 = magnitude := by
    cases negative with
    | false => simp; omega
    | true => simp; omega
  have hsignBit : Format.single.signBit = 2 ^ 31 := rfl
  have hinfinity : Format.single.infinityBits = 255 * 2 ^ 23 := rfl
  simp only [Format.decode, hsignBit, hinfinity, hmagnitude]
  split
  · rename_i hle
    exact iff_of_false (by rintro ⟨b, hb⟩; cases hb) (by omega)
  · rename_i hlt
    refine iff_of_true ?_ (by omega)
    split <;> exact ⟨_, rfl⟩

/-- A number written in units of a place and rounded is the nearest whole number of such
units. -/
theorem nearest_units (m : ℕ) (e place : ℤ) :
    Double.Nearest (divideToEven (m * (ratioOfPower (e - place)).1) (ratioOfPower (e - place)).2)
      (m * 2 ^ e / 2 ^ place) := by
  have hunits : (m : ℚ) * 2 ^ e / 2 ^ place = ((m * 2 ^ (e - place).toNat : ℕ) : ℚ) /
      ((2 ^ (-(e - place)).toNat : ℕ) : ℚ) := by
    rw [mul_div_assoc, ← zpow_sub₀ two_ne_zero, zpow_eq_div two_ne_zero, mul_div_assoc']
    push_cast
    rfl
  rw [hunits]
  exact nearest_divideToEven _ (Nat.two_pow_pos _)

/-- Which magnitudes have the bits of a finite single: those below the middle between the
greatest one and the next power of two. -/
theorem lt_infinity_iff {v : ℚ} {whole : ℕ} {top place : ℤ} (hlow : 2 ^ top ≤ v)
    (hhigh : v < 2 ^ (top + 1)) (hplace : max (top - 23) (-149) = place)
    (hwhole : Double.Nearest whole (v / 2 ^ place)) :
    (place + 149).toNat * 2 ^ 23 + whole < 255 * 2 ^ 23 ↔ v < 2 ^ 128 - 2 ^ 103 := by
  have hunit : (0 : ℚ) < 2 ^ place := zpow_pos two_pos place
  rcases lt_trichotomy top 127 with hbelow | rfl | habove
  · have hmost : whole ≤ 2 ^ 24 := by
      refine hwhole.le_of_le ((div_le_iff₀ hunit).mpr (hhigh.le.trans ?_))
      rw [Nat.cast_pow, Nat.cast_ofNat, ← zpow_natCast, ← zpow_add₀ two_ne_zero]
      exact zpow_le_zpow_right₀ one_le_two (by omega)
    refine iff_of_true (by omega) (hhigh.trans_le ?_)
    calc (2 : ℚ) ^ (top + 1) ≤ 2 ^ (127 : ℤ) := zpow_le_zpow_right₀ one_le_two (by omega)
      _ ≤ 2 ^ 128 - 2 ^ 103 := by norm_num
  · -- there is one binade where the rounding decides
    obtain rfl : place = 104 := by omega
    have hreach := hwhole.even_le_iff (n := 2 ^ 24) (by norm_num)
    rw [le_div_iff₀ hunit] at hreach
    norm_num at hreach ⊢
    rw [← not_le, ← not_le, not_iff_not, ← hreach]
    constructor <;> intro h <;> omega
  · have hleast : 2 ^ 23 ≤ whole := by
      refine hwhole.ge_of_ge ((le_div_iff₀ hunit).mpr (le_trans ?_ hlow))
      rw [Nat.cast_pow, Nat.cast_ofNat, ← zpow_natCast, ← zpow_add₀ two_ne_zero]
      exact zpow_le_zpow_right₀ one_le_two (by omega)
    refine iff_of_false (by omega) (not_lt.mpr (le_trans ?_ hlow))
    calc (2 : ℚ) ^ 128 - 2 ^ 103 ≤ 2 ^ (128 : ℤ) := by norm_num
      _ ≤ 2 ^ top := zpow_le_zpow_right₀ one_le_two (by omega)

/-- **The bits of the nearest single.** They are those of infinity from the middle on between the
greatest single and the next power of two. -/
theorem exists_encode (b : Binary) : ∃ magnitude ≤ 255 * 2 ^ 23,
    Format.single.encode b = (if b.negative then 2 ^ 31 else 0) + magnitude ∧
      (magnitude < 255 * 2 ^ 23 ↔ |b.toRat| < 2 ^ 128 - 2 ^ 103) := by
  have hinfinity : Format.single.infinityBits = 255 * 2 ^ 23 := rfl
  have hleast : Format.single.leastExponent = -149 := rfl
  have hsignBit : Format.single.signBit = 2 ^ 31 := rfl
  have hfractionBits : Format.single.fractionBits = 23 := rfl
  have habs : |b.toRat| = b.mantissa * 2 ^ b.exponent := by
    rw [toRat, abs_mul, abs_of_nonneg (by positivity : (0 : ℚ) ≤ b.mantissa * 2 ^ b.exponent)]
    split <;> simp
  rw [habs]
  rcases Nat.eq_zero_or_pos b.mantissa with hnone | hpos
  · refine ⟨0, Nat.zero_le _, ?_, iff_of_true (by norm_num) ?_⟩
    · rw [Format.encode, if_pos hnone, hsignBit, add_zero]
    · rw [hnone]
      norm_num
  have hlow : (2 : ℚ) ^ (b.exponent + b.mantissa.log2) ≤ b.mantissa * 2 ^ b.exponent := by
    rw [zpow_add₀ two_ne_zero, zpow_natCast, mul_comm]
    refine mul_le_mul_of_nonneg_right ?_ (zpow_pos two_pos _).le
    exact_mod_cast Nat.log2_self_le hpos.ne'
  have hhigh : (b.mantissa : ℚ) * 2 ^ b.exponent < 2 ^ (b.exponent + b.mantissa.log2 + 1) := by
    rw [add_assoc, zpow_add₀ two_ne_zero, mul_comm]
    refine mul_lt_mul_of_pos_left ?_ (zpow_pos two_pos _)
    exact_mod_cast Nat.lt_log2_self
  have hfinite := lt_infinity_iff hlow hhigh rfl (nearest_units b.mantissa b.exponent _)
  refine ⟨_, min_le_right _ _, ?_, (min_lt_iff.trans (or_iff_left (lt_irrefl _))).trans hfinite⟩
  rw [Format.encode, if_neg hpos.ne']
  rfl

end Binary

namespace Single

open Float.Model (UnpackedFloat)

/-- The single of some bits is finite if they have an exact value, and only then. -/
theorem isFinite_ofBits_iff (bits : UInt32) : (Float32.ofBits bits).isFinite = true ↔
    ∃ b, Binary.Format.single.decode bits.toNat = some b := by
  refine Iff.trans ?_ (isFinite_unpack_iff_decode bits.toBitVec)
  change (UnpackedFloat.unpack .binary32 (UnpackedFloat.pack .binary32
    (UnpackedFloat.unpack .binary32 bits.toBitVec))).isFinite = true ↔ _
  constructor
  · intro h
    cases hkind : UnpackedFloat.unpack .binary32 bits.toBitVec with
    | zero s | finite s m e hm => rfl
    | notANumber =>
      rw [hkind] at h
      cases h
    | infinity s =>
      rw [hkind] at h
      cases s <;> cases h
  · intro h
    rwa [Packing.pack_unpack (by decide) (Packing.valid_of_isFinite h)]

end Single

namespace Binary

variable {b : Binary}

theorem isFinite_toSingle_iff (b : Binary) :
    b.toSingle.isFinite = true ↔ |b.toRat| < 2 ^ 128 - 2 ^ 103 := by
  obtain ⟨magnitude, hle, hbits, hfinite⟩ := exists_encode b
  have hlt : Format.single.encode b < 2 ^ 32 := by
    rw [hbits]
    split <;> omega
  rw [toSingle, Single.isFinite_ofBits_iff, Nat.toUInt32, UInt32.toNat_ofNat_of_lt' hlt, hbits,
    exists_decode_iff b.negative (by omega), hfinite]

theorem isNaN_toSingle (b : Binary) : b.toSingle.isNaN = false := by
  obtain ⟨magnitude, hle, hbits, hfinite⟩ := exists_encode b
  rcases hle.lt_or_eq with hlt | rfl
  · exact (Single.isFinite_iff.mp ((isFinite_toSingle_iff b).mpr (hfinite.mp hlt))).1
  · rw [toSingle, hbits]
    cases b.negative <;> decide

end Binary

namespace Double

open Float.Model (UnpackedFloat)
open Float.Model.UnpackedFloat

variable {x : Float} {b : Binary}

/-- The exact value is the value, and a double that has one is finite. -/
theorem toRat_of_ofDouble? (h : Binary.ofDouble? x = some b) :
    x.isFinite = true ∧ b.toRat = value x := by
  rw [ofDouble?_eq] at h
  cases hkind : kind x with
  | notANumber | infinity s =>
    rw [hkind] at h
    cases h
  | zero s =>
    rw [hkind] at h
    obtain rfl := Option.some.inj h
    rw [value_of_kind_zero hkind]
    exact ⟨isFinite_of_kind_zero hkind, Binary.toRat_of_mantissa_eq_zero rfl⟩
  | finite s m e hm =>
    rw [hkind] at h
    obtain rfl := Option.some.inj h
    rw [value_of_kind hkind, Binary.toRat]
    refine ⟨isFinite_of_kind hkind, ?_⟩
    cases s
    · rw [factor_negative]
      rfl
    · rw [factor_positive]
      rfl

theorem isFinite_iff_ofDouble? : x.isFinite = true ↔ ∃ b, Binary.ofDouble? x = some b := by
  refine ⟨fun h => ?_, fun ⟨b, hb⟩ => (toRat_of_ofDouble? hb).1⟩
  rw [ofDouble?_eq]
  rcases kind_of_isFinite h with ⟨s, hkind⟩ | ⟨s, m, e, hm, hkind⟩ <;> rw [hkind] <;> exact ⟨_, rfl⟩

/-- A double that is not too large for a single: it lies below the middle between the greatest
single and the next power of two. -/
structure FitsSingle (x : Float) : Prop where
  /-- it is finite -/
  isFinite : x.isFinite = true
  /-- it is below the middle -/
  abs_lt : |value x| < 2 ^ 128 - 2 ^ 103

instance (x : Float) : Decidable (FitsSingle x) :=
  decidable_of_iff (x.isFinite = true ∧ |value x| < 2 ^ 128 - 2 ^ 103)
    ⟨fun h => ⟨h.1, h.2⟩, fun h => ⟨h.isFinite, h.abs_lt⟩⟩

/-- **Finite singles** are nearest to the doubles that fit, and to no others. -/
theorem isFinite_narrow_iff (x : Float) :
    (Binary.narrow x).isFinite = true ↔ FitsSingle x := by
  rw [Binary.narrow]
  cases hexact : Binary.ofDouble? x with
  | some b =>
    obtain ⟨hfinite, hvalue⟩ := toRat_of_ofDouble? hexact
    refine (Binary.isFinite_toSingle_iff b).trans ?_
    rw [hvalue]
    exact ⟨fun h => ⟨hfinite, h⟩, FitsSingle.abs_lt⟩
  | none =>
    refine iff_of_false ?_ fun h => ?_
    · dsimp only
      split
      · decide
      · split <;> decide
    · obtain ⟨b, hb⟩ := isFinite_iff_ofDouble?.mp h.isFinite
      rw [hexact] at hb
      cases hb

/-- The nearest single is a number if the double is one, an infinity perhaps. -/
theorem isNaN_narrow (h : x.isNaN = false) : (Binary.narrow x).isNaN = false := by
  rw [Binary.narrow]
  split
  · exact Binary.isNaN_toSingle _
  · rw [h]
    split
    · contradiction
    · split <;> decide

/-- A bound that is far enough below the greatest single makes a double fit, whatever its
digits. -/
theorem Within.fitsSingle {k : ℤ} (h : Within k x) (hk : k ≤ 127) : FitsSingle x := by
  refine ⟨h.isFinite, h.abs_le.trans_lt ?_⟩
  calc (2 : ℚ) ^ k ≤ 2 ^ (127 : ℤ) := zpow_le_zpow_right₀ one_le_two hk
    _ < 2 ^ 128 - 2 ^ 103 := by norm_num

end Double

end Compander
