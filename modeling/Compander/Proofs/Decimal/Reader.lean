import Mathlib
import Compander.Decimal.Reader
import Compander.Proofs.Floating.Nearest

/-!
# Digits read as doubles

Some digits and a power of ten are read as a quotient or as a product, of exact doubles if they
are small and of exact numbers otherwise, and that is rounded once:

* `Double.kind_toFloat`, `Double.exists_kind_powerOfTen` — small whole numbers and small powers
  of ten are doubles;
* `Decimal.ofScientific_eq` — a product or a quotient of two such is rounded from its exact
  value, and so is one of larger numbers;
* `Decimal.nearestDouble_eq` — digits and a power of ten are read as the double that their
  exact value rounds to.

The nearest double is given by its digits and its exponent (`Double.Canonical`), together with
the interval of numbers that round to it (`Double.RoundsTo`). Numbers far beyond the range of
doubles are told by the length of their digits alone, without their power of ten; that nothing
which rounds to a double is told so is a matter of bounds on powers of two and of ten.
-/

namespace Compander

open Float.Model (Format UnpackedFloat)
open Float.Model.UnpackedFloat (Sign)

namespace Double

/-- The double of some digits, at an exponent and with a sign. -/
def ofDigits (s : Sign) (m : ℕ) (e : ℤ) (h : 0 < m) : Float :=
  .ofModel (.pack (.finite s m e h))

/-! ## Exact numbers -/

/-- A number of digits and exponent rounds to itself, whether or not they are all that a
double has. -/
theorem roundsTo_self (m : ℕ) (e : ℤ) : RoundsTo m e (m * 2 ^ e) := by
  have hvalue : (m : ℚ) * 2 ^ e / 2 ^ e = m :=
    mul_div_cancel_right₀ _ (zpow_pos two_pos e).ne'
  refine ⟨?_, fun _ _ => ?_⟩
  · rw [hvalue]
    exact nearest_self m
  · rw [hvalue]
    linarith

/-- All digits of a small whole number, the leading one moved to the top, are those of a
double. -/
theorem canonical_of_lt {n : ℕ} (hn : 0 < n) (hlt : n < 2 ^ 53) :
    Canonical (n * 2 ^ (52 - n.log2)) (n.log2 - 52) := by
  have hlog : n.log2 ≤ 52 := Nat.le_of_lt_succ ((Nat.log2_lt hn.ne').mpr hlt)
  have hlow : 2 ^ n.log2 * 2 ^ (52 - n.log2) = 2 ^ 52 := by
    rw [← pow_add, Nat.add_sub_cancel' hlog]
  have hhigh : 2 ^ (n.log2 + 1) * 2 ^ (52 - n.log2) = 2 ^ 53 := by
    rw [← pow_add]
    congr 1
    omega
  refine ⟨by positivity, ?_, by omega, by omega, .inl ?_⟩
  · rw [← hhigh]
    gcongr
    exact Nat.lt_log2_self
  · rw [← hlow]
    gcongr
    exact Nat.log2_self_le hn.ne'

theorem value_of_lt {n : ℕ} (hn : 0 < n) (hlt : n < 2 ^ 53) :
    ((n * 2 ^ (52 - n.log2) : ℕ) : ℚ) * 2 ^ ((n.log2 : ℤ) - 52) = n := by
  have hlog : n.log2 ≤ 52 := Nat.le_of_lt_succ ((Nat.log2_lt hn.ne').mpr hlt)
  push_cast
  rw [mul_assoc, ← zpow_natCast, ← zpow_add₀ two_ne_zero,
    show ((52 - n.log2 : ℕ) : ℤ) + (n.log2 - 52) = 0 by omega, zpow_zero, mul_one]

/-- A number with all its digits is rounded to itself, as there is nothing to be rounded
away. -/
theorem round_self {s : Sign} {m : ℕ} {e : ℤ} (hm : Canonical m e) (hfull : 2 ^ 52 ≤ m) :
    UnpackedFloat.roundWithAccuracy .binary64 s m e .exact = .finite s m e hm.pos := by
  refine roundWithAccuracy_eq hm (roundsTo_self m e) ?_ (.inl (log2_of_full hm.lt hfull).ge)
  rw [mul_div_cancel_right₀ _ (zpow_pos two_pos e).ne']
  exact shows_exact m

/-- A small whole number is a double, the one with its digits moved to the top. -/
theorem kind_toFloat {n : ℕ} (hn : 0 < n) (hlt : n < 2 ^ 53) :
    kind n.toUInt64.toFloat =
      .finite .positive (n * 2 ^ (52 - n.log2)) (n.log2 - 52) (canonical_of_lt hn hlt).pos := by
  have hlog : n.log2 ≤ 52 := Nat.le_of_lt_succ ((Nat.log2_lt hn.ne').mpr hlt)
  have hcanonical := canonical_of_lt hn hlt
  have hword : n.toUInt64.toNat = n := by
    rw [Nat.toUInt64_eq, UInt64.toNat_ofNat', Nat.mod_eq_of_lt (by omega)]
  have hround : UnpackedFloat.ofNat .binary64 n =
      .finite .positive (n * 2 ^ (52 - n.log2)) (n.log2 - 52) hcanonical.pos := by
    have hsign : compare (n : ℤ) 0 = .gt := Int.compare_eq_gt.mpr (by omega)
    have hshift : (0 - max ((n.log2 : ℤ) + 0 - 52) (-1074)).toNat = 52 - n.log2 := by omega
    have hplace : (0 : ℤ) - (52 - n.log2 : ℕ) = n.log2 - 52 := by omega
    rw [UnpackedFloat.ofNat, UnpackedFloat.ofInt, UnpackedFloat.normalize, hsign]
    simp only [UnpackedFloat.round, UnpackedFloat.decreaseExponent, targetExponent_eq,
      Int.toNat_natCast, hshift, hplace, Nat.shiftLeft_eq]
    exact round_self hcanonical (hcanonical.normal.resolve_right (by omega))
  change UnpackedFloat.unpack .binary64 (UnpackedFloat.pack .binary64
    (UnpackedFloat.ofNat .binary64 n.toUInt64.toNat)) = _
  rw [hword, hround]
  exact unpack_pack _ hcanonical

/-- Whether a number is a power of ten, in whole numbers, so that a table of them can be
checked by computing. -/
def isPowerOfTen (k : ℕ) : UnpackedFloat → Bool
  | .finite .positive m e _ => m * 2 ^ e.toNat = 10 ^ k * 2 ^ (-e).toNat
  | _ => false

/-- The powers of ten that are at hand are exact: each of them is the power that its place
says. -/
theorem isPowerOfTen_table :
    ∀ k : Fin 23, isPowerOfTen k (kind Float.exactlyRepresentablePowersOfTen[k]) = true := by
  decide +kernel

theorem exists_kind_powerOfTen {k : ℕ} (hk : k ≤ 22)
    (hsize : k < Float.exactlyRepresentablePowersOfTen.size) :
    ∃ m e h, kind Float.exactlyRepresentablePowersOfTen[k] = .finite .positive m e h ∧
      (m : ℚ) * 2 ^ e = 10 ^ k := by
  have htable : isPowerOfTen k (kind Float.exactlyRepresentablePowersOfTen[k]) = true :=
    isPowerOfTen_table ⟨k, Nat.lt_succ_of_le hk⟩
  cases hkind : kind Float.exactlyRepresentablePowersOfTen[k] with
  | finite s m e h =>
    rw [hkind] at htable
    cases s with
    | negative => cases htable
    | positive =>
      have hvalue : (m : ℚ) * 2 ^ e.toNat = 10 ^ k * 2 ^ (-e).toNat := by
        exact_mod_cast of_decide_eq_true htable
      refine ⟨m, e, h, rfl, ?_⟩
      have he : e = e.toNat - (-e).toNat := by omega
      rw [he, zpow_sub₀ two_ne_zero, zpow_natCast, zpow_natCast, mul_div_assoc', hvalue,
        mul_div_cancel_right₀ _ (pow_pos two_pos _).ne']
  | notANumber | infinity | zero =>
    rw [hkind] at htable
    cases htable

/-! ## Decimals -/

/-- What rounds to a double is neither tiny nor huge: it is no less than half of the smallest
double, and less than what would be infinite. -/
theorem RoundsTo.bounds {m : ℕ} {e : ℤ} {v : ℚ} (hm : Canonical m e) (hv : RoundsTo m e v) :
    (2 : ℚ) ^ (-1075 : ℤ) ≤ v ∧ v < 2 ^ (1024 : ℤ) := by
  have hleast := hm.least
  have hgreatest := hm.greatest
  constructor
  · have hlow := (le_div_iff₀ (two_zpow_pos e)).mp hv.nearest.lower
    have hone : (1 : ℚ) ≤ m := by exact_mod_cast hm.pos
    calc (2 : ℚ) ^ (-1075 : ℤ) ≤ 2 ^ (-1 + e) := zpow_le_zpow_right₀ one_le_two (by omega)
      _ = 1 / 2 * 2 ^ e := by rw [zpow_add₀ two_ne_zero, zpow_neg_one, one_div]
      _ ≤ (m - 1 / 2) * 2 ^ e := by
        gcongr
        linarith
      _ ≤ v := hlow
  · exact (hv.lt_two_zpow hm.lt).trans_le (zpow_le_zpow_right₀ one_le_two (by omega))

/-- A whole number times a power of ten is rounded from the exact value. -/
theorem ofScientific_natCast {n k M : ℕ} {E : ℤ} (hn : 0 < n) (hM : Canonical M E)
    (hv : RoundsTo M E (n * 10 ^ k)) :
    UnpackedFloat.ofScientific .binary64 n k = .finite .positive M E hM.pos := by
  have hsmall : k < 1024 := by
    have hone : (1 : ℚ) ≤ n := by exact_mod_cast hn
    have hpower : (2 : ℚ) ^ (k : ℤ) < 2 ^ (1024 : ℤ) := by
      refine lt_of_le_of_lt ?_ (hv.bounds hM).2
      calc (2 : ℚ) ^ (k : ℤ) = 1 * 2 ^ k := by rw [zpow_natCast, one_mul]
        _ ≤ n * 10 ^ k := by gcongr; norm_num
    exact_mod_cast lt_of_two_zpow_lt hpower
  have hbits : Format.binary64.mantissaBits = 53 := rfl
  have hguard : (2 : ℤ) ^ Format.binary64.exponentBits = 2048 := by decide
  rw [UnpackedFloat.ofScientific, dif_neg hn.ne', if_neg (by omega), if_neg (by omega),
    if_pos (by omega)]
  refine mul_eq hM ?_ (.inl ?_)
  · have hvalue : ((n <<< Format.binary64.mantissaBits : ℕ) : ℚ) * (10 ^ (k : ℤ).toNat : ℕ) *
        2 ^ (-(Format.binary64.mantissaBits : ℤ) + 0) = n * 10 ^ k := by
      rw [hbits, Nat.shiftLeft_eq, Int.toNat_natCast, add_zero, zpow_neg, zpow_natCast]
      push_cast
      field_simp
      norm_num
    rw [hvalue]
    exact hv
  · rw [hbits, Nat.shiftLeft_eq]
    refine (Nat.le_log2 (by positivity)).mpr ?_
    calc 2 ^ 52 ≤ 1 * 2 ^ 53 * 1 := by norm_num
      _ ≤ n * 2 ^ 53 * 10 ^ (k : ℤ).toNat := by
        gcongr
        · exact hn
        · exact Nat.one_le_pow _ _ (by norm_num)

/-- A whole number divided by a power of ten is rounded from the exact value. -/
theorem ofScientific_neg {n k M : ℕ} {E : ℤ} (hn : 0 < n) (hk : 0 < k) (hM : Canonical M E)
    (hv : RoundsTo M E (n / 10 ^ k)) :
    UnpackedFloat.ofScientific .binary64 n (-k) = .finite .positive M E hM.pos := by
  have hten : (0 : ℚ) < 10 ^ k := by positivity
  have hsmall : k < n.log2 + 1 + 1075 := by
    have hn' : (n : ℚ) < 2 ^ (n.log2 + 1) := by exact_mod_cast Nat.lt_log2_self
    have hlow := (le_div_iff₀ hten).mp (hv.bounds hM).1
    have hpower : (2 : ℚ) ^ ((k : ℤ) + -1075) < 2 ^ ((n.log2 : ℤ) + 1) := by
      calc (2 : ℚ) ^ ((k : ℤ) + -1075) = 2 ^ (-1075 : ℤ) * 2 ^ k := by
            rw [zpow_add₀ two_ne_zero, zpow_natCast, mul_comm]
        _ ≤ 2 ^ (-1075 : ℤ) * 10 ^ k := by gcongr; norm_num
        _ ≤ n := hlow
        _ < 2 ^ ((n.log2 : ℤ) + 1) := by exact_mod_cast hn'
    have := lt_of_two_zpow_lt hpower
    omega
  have hguard : (2 : ℤ) ^ Format.binary64.exponentBits = 2048 := by decide
  rw [UnpackedFloat.ofScientific, dif_neg hn.ne', if_neg (by omega), if_neg (by omega),
    if_neg (by omega)]
  refine div_eq hM ?_
  have hvalue : (n : ℚ) * 2 ^ (0 : ℤ) / ((10 ^ (- -(k : ℤ)).toNat : ℕ) * 2 ^ (0 : ℤ)) =
      n / 10 ^ k := by
    rw [neg_neg, Int.toNat_natCast]
    push_cast
    simp
  rw [hvalue]
  exact hv

end Double

open Double

namespace Decimal

/-- A small whole number times a small power of ten, both exact, is rounded once. -/
theorem toFloat_mul {n k M : ℕ} {E : ℤ} (hn : 0 < n) (hlt : n < 2 ^ 53) (hk : k ≤ 22)
    (hsize : k < Float.exactlyRepresentablePowersOfTen.size) (hM : Canonical M E)
    (hv : RoundsTo M E (n * 10 ^ k)) :
    n.toUInt64.toFloat * Float.exactlyRepresentablePowersOfTen[k] =
      ofDigits .positive M E hM.pos := by
  obtain ⟨m, e, h, hkind, hten⟩ := exists_kind_powerOfTen hk hsize
  have hfull : 2 ^ 52 ≤ n * 2 ^ (52 - n.log2) :=
    (canonical_of_lt hn hlt).normal.resolve_right (by omega)
  change Float.ofModel (.pack (UnpackedFloat.mul .binary64 (kind n.toUInt64.toFloat)
    (kind Float.exactlyRepresentablePowersOfTen[k]))) = _
  rw [kind_toFloat hn hlt, hkind, mul_eq hM]
  · rfl
  · rw [zpow_add₀ two_ne_zero, mul_mul_mul_comm, value_of_lt hn hlt, hten]
    exact hv
  · exact .inl ((Nat.le_log2 (by positivity)).mpr (le_mul_of_le_of_one_le hfull h))

/-- A small whole number divided by a small power of ten, both exact, is rounded once. -/
theorem toFloat_div {n k M : ℕ} {E : ℤ} (hn : 0 < n) (hlt : n < 2 ^ 53) (hk : k ≤ 22)
    (hsize : k < Float.exactlyRepresentablePowersOfTen.size) (hM : Canonical M E)
    (hv : RoundsTo M E (n / 10 ^ k)) :
    n.toUInt64.toFloat / Float.exactlyRepresentablePowersOfTen[k] =
      ofDigits .positive M E hM.pos := by
  obtain ⟨m, e, h, hkind, hten⟩ := exists_kind_powerOfTen hk hsize
  change Float.ofModel (.pack (UnpackedFloat.div .binary64 (kind n.toUInt64.toFloat)
    (kind Float.exactlyRepresentablePowersOfTen[k]))) = _
  rw [kind_toFloat hn hlt, hkind, div_eq hM]
  · rfl
  · rw [value_of_lt hn hlt, hten]
    exact hv

/-- Digits and a power of ten are rounded to the nearest double, by whichever of the ways the
sizes allow. -/
theorem ofScientific_eq {n M : ℕ} {exponent E : ℤ} (hn : 0 < n) (hM : Canonical M E)
    (hv : RoundsTo M E (n * 10 ^ exponent)) :
    Float.ofScientific n (exponent < 0) exponent.natAbs = ofDigits .positive M E hM.pos := by
  cases exponent with
  | ofNat k =>
    have hsign : decide (Int.ofNat k < 0) = false := decide_eq_false (by simp)
    rw [Int.ofNat_eq_natCast, zpow_natCast] at hv
    rw [hsign, Int.natAbs_ofNat', Float.ofScientific]
    split
    · rename_i hsmall
      exact toFloat_mul hn hsmall.1 hsmall.2 _ hM hv
    · change Float.ofModel (.pack (UnpackedFloat.ofScientific .binary64 n (k : ℤ))) = _
      rw [ofScientific_natCast hn hM hv]
      rfl
  | negSucc k =>
    have hsign : decide (Int.negSucc k < 0) = true := decide_eq_true (Int.negSucc_lt_zero k)
    rw [zpow_negSucc, ← div_eq_mul_inv] at hv
    rw [hsign, Int.natAbs_negSucc, Float.ofScientific]
    split
    · rename_i hsmall
      exact toFloat_div hn hsmall.1 hsmall.2 _ hM hv
    · change Float.ofModel (.pack (UnpackedFloat.ofScientific .binary64 n (-((k + 1 : ℕ) : ℤ)))) = _
      rw [ofScientific_neg hn k.succ_pos hM hv]
      rfl

/-! A power of ten is told from the power of eight on its near side. -/

theorem two_zpow_mul_three (exponent : ℤ) : (2 : ℚ) ^ (exponent * 3) = 8 ^ exponent := by
  rw [mul_comm, zpow_mul]
  norm_num

/-- A whole number times a power of ten, from below: it is at least what its leading digit and
eight for each ten come to. -/
theorem two_zpow_le_mul {digits : ℕ} {exponent : ℤ} (hdigits : digits ≠ 0) (hpos : 0 ≤ exponent) :
    (2 : ℚ) ^ ((digits.log2 : ℤ) + exponent * 3) ≤ digits * 10 ^ exponent := by
  rw [zpow_add₀ two_ne_zero, two_zpow_mul_three, zpow_natCast]
  gcongr
  · exact_mod_cast Nat.log2_self_le hdigits
  · exact zpow_le_zpow_left₀ hpos (by norm_num) (by norm_num)

/-- A whole number divided by a power of ten, from above: it is less than what the next
leading digit and eight for each ten come to. -/
theorem mul_lt_two_zpow {digits : ℕ} {exponent : ℤ} (hneg : exponent ≤ 0) :
    (digits : ℚ) * 10 ^ exponent < 2 ^ ((digits.log2 : ℤ) + 1 + exponent * 3) := by
  have hdigits : (digits : ℚ) < 2 ^ ((digits.log2 : ℤ) + 1) := by exact_mod_cast Nat.lt_log2_self
  have hten : (10 : ℚ) ^ exponent ≤ 8 ^ exponent := by
    obtain ⟨k, rfl⟩ : ∃ k : ℕ, exponent = -k := ⟨exponent.natAbs, by omega⟩
    rw [zpow_neg, zpow_neg, zpow_natCast, zpow_natCast]
    gcongr
    norm_num
  calc (digits : ℚ) * 10 ^ exponent ≤ digits * 8 ^ exponent := by gcongr
    _ < 2 ^ ((digits.log2 : ℤ) + 1) * 8 ^ exponent := by gcongr
    _ = 2 ^ ((digits.log2 : ℤ) + 1 + exponent * 3) := by
      rw [zpow_add₀ two_ne_zero _ (exponent * 3), two_zpow_mul_three]

/-- **Reading** rounds to the nearest double: digits and a power of ten have the double that
their exact product rounds to. -/
theorem nearestDouble_eq {digits M : ℕ} {exponent E : ℤ} (hM : Canonical M E)
    (hv : RoundsTo M E (digits * 10 ^ exponent)) :
    nearestDouble digits exponent = ofDigits .positive M E hM.pos := by
  obtain ⟨hlow, hhigh⟩ := hv.bounds hM
  have hdigits : digits ≠ 0 := by
    rintro rfl
    rw [Nat.cast_zero, zero_mul] at hlow
    exact absurd hlow (not_le.mpr (zpow_pos two_pos _))
  have hlarge : ¬(0 < exponent ∧ 2000 < (Nat.log2 digits : ℤ) + 1 + exponent * 3) := by
    rintro ⟨hpos, hmagnitude⟩
    have := lt_of_two_zpow_lt ((two_zpow_le_mul hdigits hpos.le).trans_lt hhigh)
    omega
  have hsmall : ¬(exponent < 0 ∧ (Nat.log2 digits : ℤ) + 1 + exponent * 3 < -2000) := by
    rintro ⟨hneg, hmagnitude⟩
    have := lt_of_two_zpow_lt (hlow.trans_lt (mul_lt_two_zpow hneg.le))
    omega
  rw [nearestDouble]
  simp only [if_neg hdigits, if_neg hlarge, if_neg hsmall]
  exact ofScientific_eq (Nat.pos_of_ne_zero hdigits) hM hv

end Decimal

end Compander
