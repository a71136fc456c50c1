import Mathlib
import Compander.Proofs.Floating.Nearest
import Compander.Proofs.Floating.Values

/-!
# How far rounding goes

The sum, the difference, the product and the quotient of two finite doubles is the exact result,
rounded. As long as the exact result is not too large the double is finite, no more than half a
unit of its last place away from it, and on the same side of every power of two:

* `Double.value` — the number that a finite double is;
* `Double.Rounded` — what a double has of the number that it was rounded from;
* `Double.rounded_roundWithAccuracy` — rounding what some digits show;
* `Double.rounded_add`, `Double.rounded_sub`, `Double.rounded_mul`, `Double.rounded_div` — the
  four operations.

The four are proved alike. Each works out some digits of the exact result, with a sign, and hands
them to the same rounding; what remains to be shown is that there are digits enough, or that the
result is exact. Results too small for all digits are included, as are zeros.
-/

namespace Compander.Double

open Float.Model (Format UnpackedFloat)
open Float.Model.UnpackedFloat

variable {x y : Float} {u : UnpackedFloat} {v : ℚ}

/-! ## Values -/

/-- A sign as a factor. -/
def factor (s : Sign) : ℚ :=
  (s.apply 1 : ℤ)

theorem abs_factor (s : Sign) : |factor s| = 1 := by
  cases s <;> simp [factor, Sign.apply]

theorem factor_mul_self (s : Sign) : factor s * factor s = 1 := by
  cases s <;> simp [factor, Sign.apply]

theorem apply_eq (s : Sign) (m : ℕ) : ((s.apply m : ℤ) : ℚ) = factor s * m := by
  cases s <;> simp [factor, Sign.apply]

theorem factor_neg (s : Sign) : factor (-s) = -factor s := by
  have hsign : (-s).apply 1 = -s.apply 1 := by cases s <;> rfl
  rw [factor, factor, hsign, Int.cast_neg]

theorem factor_mul (s t : Sign) : factor (s * t) = factor s * factor t := by
  have hsign : (s * t).apply 1 = s.apply 1 * t.apply 1 := by cases s <;> cases t <;> rfl
  rw [factor, factor, factor, hsign, Int.cast_mul]

theorem factor_div (s t : Sign) : factor (s / t) = factor s / factor t := by
  have hsign : (s / t).apply 1 = s.apply 1 * t.apply 1 := by cases s <;> cases t <;> rfl
  have ht : factor t ≠ 0 := fun h => by simpa [h] using factor_mul_self t
  rw [eq_div_iff ht, factor, hsign, Int.cast_mul]
  change factor s * factor t * factor t = factor s
  rw [mul_assoc, factor_mul_self, mul_one]

/-- The number that a finite number is; zero for all others. -/
def valueOf : UnpackedFloat → ℚ
  | .finite s m e _ => factor s * (m * 2 ^ e)
  | _ => 0

theorem valueOf_zero (s : Sign) : valueOf (.zero s) = 0 :=
  rfl

theorem valueOf_finite (s : Sign) (m : ℕ) (e : ℤ) (h : 0 < m) :
    valueOf (.finite s m e h) = factor s * (m * 2 ^ e) :=
  rfl

/-- The number that a finite double is; zero for all others. -/
def value (x : Float) : ℚ :=
  valueOf (kind x)

/-! ## Rounding -/

/-- What a double has of a number that it was rounded from. -/
structure Rounded (v : ℚ) (x : Float) : Prop where
  /-- it is finite -/
  isFinite : x.isFinite = true
  /-- it is not above a power of two that the number is not above -/
  abs_le : ∀ k : ℤ, -1074 ≤ k → |v| ≤ 2 ^ k → |value x| ≤ 2 ^ k
  /-- it is not below a power of two that the number is not below -/
  le_abs : ∀ k : ℤ, -1074 ≤ k → 2 ^ k ≤ |v| → 2 ^ k ≤ |value x|
  /-- it is near the number -/
  abs_sub_le : ∀ k : ℤ, -1022 ≤ k → |v| ≤ 2 ^ k → |value x - v| ≤ 2 ^ (k - 53)

/-- A double that is the number has all there is of it. -/
theorem rounded_value (h : x.isFinite = true) : Rounded (value x) x := by
  refine ⟨h, fun _ _ h => h, fun _ _ h => h, fun k _ _ => ?_⟩
  rw [sub_self, abs_zero]
  exact (two_zpow_pos _).le

/-- The nearest whole number does not pass a whole number, as that one would be nearer, -/
theorem Nearest.le_of_le {M n : ℕ} {w : ℚ} (h : Nearest M w) (hw : w ≤ n) : M ≤ n := by
  have hlt : (M : ℚ) < n + 1 := by linarith [h.lower]
  exact Nat.lt_succ_iff.mp (by exact_mod_cast hlt)

/-- from neither side. So rounding keeps to any bound that is itself a double. -/
theorem Nearest.ge_of_ge {M n : ℕ} {w : ℚ} (h : Nearest M w) (hw : n ≤ w) : n ≤ M := by
  have hlt : (n : ℚ) < M + 1 := by linarith [h.upper]
  exact Nat.lt_succ_iff.mp (by exact_mod_cast hlt)

/-- A power of two from some place on is a whole number of units of that place. -/
theorem exists_units {t k : ℤ} (h : t ≤ k) : ∃ n : ℕ, (2 : ℚ) ^ k = n * 2 ^ t := by
  obtain ⟨j, rfl⟩ := Int.le.dest h
  refine ⟨2 ^ j, ?_⟩
  rw [zpow_add₀ two_ne_zero, zpow_natCast, mul_comm, Nat.cast_pow, Nat.cast_ofNat]

theorem le_of_two_zpow_le {k l : ℤ} (h : (2 : ℚ) ^ k ≤ 2 ^ l) : k ≤ l :=
  (zpow_le_zpow_iff_right₀ one_lt_two).mp h

/-- The place that a number is rounded at: the last one of a double, if the number is large
enough for all digits, or else the lowest one. -/
structure Place (t : ℤ) (v : ℚ) : Prop where
  /-- no place is lower -/
  least : -1074 ≤ t
  /-- a number at another place has all digits -/
  full : t = -1074 ∨ 2 ^ (t + 52) ≤ v

theorem Place.le {t k : ℤ} (h : Place t v) (hk : -1022 ≤ k) (hv : v ≤ 2 ^ k) : t + 52 ≤ k := by
  rcases h.full with rfl | hfull
  · exact hk
  · exact le_of_two_zpow_le (hfull.trans hv)

theorem Place.le_of_le {t k : ℤ} (h : Place t v) (hk : -1074 ≤ k) (hv : v ≤ 2 ^ k) : t ≤ k := by
  rcases h.full with rfl | hfull
  · exact hk
  · have := le_of_two_zpow_le (hfull.trans hv)
    omega

/-- A double whose digits are nearest to a number has what there is to have of it, with a sign
on both. -/
theorem rounded_of_nearest {s : Sign} {M : ℕ} {t : ℤ} (hfinite : x.isFinite = true)
    (hvalue : value x = factor s * (M * 2 ^ t)) (hv : 0 ≤ v) (hM : Nearest M (v / 2 ^ t))
    (ht : Place t v) : Rounded (factor s * v) x := by
  have hunit := two_zpow_pos t
  have habs : |value x| = M * 2 ^ t := by
    rw [hvalue, abs_mul, abs_factor, one_mul, abs_of_nonneg (by positivity)]
  have habs' : |factor s * v| = v := by
    rw [abs_mul, abs_factor, one_mul, abs_of_nonneg hv]
  refine ⟨hfinite, fun k hk hvk => ?_, fun k hk hvk => ?_, fun k hk hvk => ?_⟩
  · rw [habs'] at hvk
    obtain ⟨n, hn⟩ := exists_units (ht.le_of_le hk hvk)
    rw [hn, ← div_le_iff₀ hunit] at hvk
    rw [habs, hn]
    exact mul_le_mul_of_nonneg_right (by exact_mod_cast hM.le_of_le hvk) hunit.le
  · rw [habs'] at hvk
    rw [habs]
    rcases le_or_gt t k with htk | hkt
    · obtain ⟨n, hn⟩ := exists_units htk
      rw [hn, ← le_div_iff₀ hunit] at hvk
      rw [hn]
      exact mul_le_mul_of_nonneg_right (by exact_mod_cast hM.ge_of_ge hvk) hunit.le
    · -- below its last place a number of all digits has no power of two
      have hfull : 2 ^ (t + 52) ≤ v := ht.full.resolve_left (by omega)
      rw [add_comm, zpow_add₀ two_ne_zero, ← le_div_iff₀ hunit] at hfull
      have hdigits : 2 ^ 52 ≤ M := hM.ge_of_ge (by exact_mod_cast hfull)
      have hone : (1 : ℚ) ≤ M := by exact_mod_cast (by omega : 1 ≤ M)
      calc (2 : ℚ) ^ k ≤ 2 ^ t := zpow_le_zpow_right₀ one_le_two hkt.le
        _ ≤ M * 2 ^ t := le_mul_of_one_le_left hunit.le hone
  · rw [habs'] at hvk
    have hplace := ht.le hk hvk
    have hlower := (le_div_iff₀ hunit).mp hM.lower
    have hupper := (div_le_iff₀ hunit).mp hM.upper
    rw [hvalue, ← mul_sub, abs_mul, abs_factor, one_mul]
    calc |M * 2 ^ t - v| ≤ 2 ^ (t - 1) := by
          rw [abs_le, zpow_sub_one₀ two_ne_zero]
          constructor <;> linarith
      _ ≤ 2 ^ (k - 53) := zpow_le_zpow_right₀ one_le_two (by omega)

/-! ## From digits to doubles -/

theorem kind_ofModel_pack_zero (s : Sign) : kind (.ofModel (.pack (.zero s))) = .zero s := by
  cases s <;> rfl

theorem isFinite_of_kind {s : Sign} {m : ℕ} {e : ℤ} {h : 0 < m} (hx : kind x = .finite s m e h) :
    x.isFinite = true := by
  change (kind x).isFinite = true
  rw [hx]
  rfl

theorem isFinite_of_kind_zero {s : Sign} (hx : kind x = .zero s) : x.isFinite = true := by
  change (kind x).isFinite = true
  rw [hx]
  rfl

theorem kind_of_isFinite (h : x.isFinite = true) :
    (∃ s, kind x = .zero s) ∨ ∃ s m e, ∃ hm : 0 < m, kind x = .finite s m e hm := by
  change (kind x).isFinite = true at h
  cases hkind : kind x with
  | notANumber | infinity s =>
    rw [hkind] at h
    cases h
  | zero s => exact .inl ⟨s, rfl⟩
  | finite s m e hm => exact .inr ⟨s, m, e, hm, rfl⟩

theorem value_of_kind_zero {s : Sign} (h : kind x = .zero s) : value x = 0 := by
  rw [value, h, valueOf_zero]

theorem value_of_kind {s : Sign} {m : ℕ} {e : ℤ} {hm : 0 < m} (h : kind x = .finite s m e hm) :
    value x = factor s * (m * 2 ^ e) := by
  rw [value, h, valueOf_finite]

theorem rounded_zero {s : Sign} : Rounded 0 (.ofModel (.pack (.zero s))) := by
  have hkind := kind_ofModel_pack_zero s
  have hzero := rounded_value (isFinite_of_kind_zero hkind)
  rwa [value_of_kind_zero hkind] at hzero

/-- The place and the digits that a number is rounded to. The place is the one that the first
digit leaves for the last, or the least of all. -/
theorem exists_place {m : ℕ} {e : ℤ} {a : Accuracy}
    (hshows : Shows (.ofMantissaAndAccuracy m a) (v / 2 ^ e))
    (henough : 52 ≤ m.log2 ∨ e ≤ -1074) :
    let first := shiftToTargetExponent .binary64 m e a
    Nearest first.1.roundedMantissa (v / 2 ^ first.2) ∧ Place first.2 v ∧
      v < 2 ^ (first.2 + 53) := by
  have he : e ≤ max (m.log2 + e - 52) (-1074) := by omega
  obtain ⟨hfirst, hplace⟩ := shows_shiftToTargetExponent hshows he
  have hless := hshows.lt_two_zpow
  dsimp only
  rw [hplace]
  refine ⟨hfirst.nearest, ⟨le_max_right _ _, ?_⟩,
    hless.trans_le (zpow_le_zpow_right₀ one_le_two (by omega))⟩
  by_cases hleast : max ((m.log2 : ℤ) + e - 52) (-1074) = -1074
  · exact .inl hleast
  · have hm : m ≠ 0 := by
      rintro rfl
      simp only [Nat.log2_zero] at henough hleast
      omega
    have hlow := hshows.two_zpow_le hm
    rw [show (m.log2 : ℤ) + e = max ((m.log2 : ℤ) + e - 52) (-1074) + 52 by omega] at hlow
    exact .inr hlow

/-- What becomes of rounded digits: rounding may have made one too many, and then the exponent
goes up by one. The other cases are zero and digits that fit. -/
theorem roundWithAccuracy_cases (s : Sign) {m M : ℕ} {e t : ℤ} {a : Accuracy}
    (hM : (shiftToTargetExponent .binary64 m e a).1.roundedMantissa = M)
    (ht : (shiftToTargetExponent .binary64 m e a).2 = t) (hmost : M ≤ 2 ^ 53) (hleast : -1074 ≤ t) :
    (M = 0 ∧ roundWithAccuracy .binary64 s m e a = .zero s) ∨
    (M < 2 ^ 53 ∧ ∃ h : 0 < M, roundWithAccuracy .binary64 s m e a = .finite s M t h) ∨
    (M = 2 ^ 53 ∧
      roundWithAccuracy .binary64 s m e a = .finite s (2 ^ 52) (t + 1) (Nat.two_pow_pos 52)) := by
  rw [roundWithAccuracy]
  simp only [hM, ht]
  rcases hmost.lt_or_eq with hlt | rfl
  · simp only [shiftToTargetExponent_of_lt hlt hleast]
    rcases Nat.eq_zero_or_pos M with rfl | hpos
    · exact .inl ⟨rfl, rfl⟩
    · exact .inr (.inl ⟨hlt, hpos, dif_neg hpos.ne'⟩)
  · refine .inr (.inr ⟨rfl, ?_⟩)
    simp only [shiftToTargetExponent_two_pow hleast]
    rfl

/-- **Rounding** what some digits show, if they are enough and the number is not too large. -/
theorem rounded_roundWithAccuracy (s : Sign) {m : ℕ} {e : ℤ} {a : Accuracy}
    (hshows : Shows (.ofMantissaAndAccuracy m a) (v / 2 ^ e))
    (henough : 52 ≤ m.log2 ∨ e ≤ -1074) (hv : v ≤ 2 ^ (1023 : ℤ)) :
    Rounded (factor s * v) (.ofModel (.pack (roundWithAccuracy .binary64 s m e a))) := by
  obtain ⟨hnearest, hplace, hless⟩ := exists_place hshows henough
  have hnonneg : 0 ≤ v := by
    have hshown : 0 ≤ v / 2 ^ e := (Nat.cast_nonneg _).trans hshows.bounds.1
    rwa [le_div_iff₀ (two_zpow_pos e), zero_mul] at hshown
  generalize hM : (shiftToTargetExponent .binary64 m e a).1.roundedMantissa = M at hnearest
  generalize ht : (shiftToTargetExponent .binary64 m e a).2 = t at hnearest hplace hless
  have hunit := two_zpow_pos t
  have hleast := hplace.least
  have hgreatest := hplace.le (by norm_num) hv
  have hmost : M ≤ 2 ^ 53 := by
    rw [add_comm, zpow_add₀ two_ne_zero, ← div_lt_iff₀ hunit] at hless
    exact hnearest.le_of_le (by exact_mod_cast hless.le)
  rcases roundWithAccuracy_cases s hM ht hmost hleast with ⟨rfl, hzero⟩ | ⟨hlt, hpos, hfinite⟩ |
    ⟨rfl, hcarry⟩
  · have hkind := kind_ofModel_pack_zero s
    rw [hzero]
    refine rounded_of_nearest (isFinite_of_kind_zero hkind) ?_ hnonneg hnearest hplace
    rw [value, hkind, valueOf_zero, Nat.cast_zero, zero_mul, mul_zero]
  · have hcanonical : Canonical M t := by
      refine ⟨hpos, hlt, hleast, by omega, ?_⟩
      rcases hplace.full with hleast | hfull
      · exact .inr hleast
      · rw [add_comm, zpow_add₀ two_ne_zero, ← le_div_iff₀ hunit] at hfull
        exact .inl (hnearest.ge_of_ge (by exact_mod_cast hfull))
    have hkind := kind_ofModel_pack (s := s) hpos hcanonical
    rw [hfinite]
    refine rounded_of_nearest (isFinite_of_kind hkind) ?_ hnonneg hnearest hplace
    rw [value, hkind, valueOf_finite]
  · have hbelow : t + 1 ≤ 971 := by
      -- a number that is rounded to all ones and one more is larger than half of that
      have hlow : 2 ^ (t + 52) < v := by
        have hlower := (le_div_iff₀ hunit).mp hnearest.lower
        rw [add_comm, zpow_add₀ two_ne_zero]
        norm_num at hlower ⊢
        linarith
      have := lt_of_two_zpow_lt (hlow.trans_le hv)
      omega
    have hcanonical : Canonical (2 ^ 52) (t + 1) :=
      ⟨by norm_num, by norm_num, by omega, hbelow, .inl le_rfl⟩
    have hkind := kind_ofModel_pack (s := s) (Nat.two_pow_pos 52) hcanonical
    rw [hcarry]
    refine rounded_of_nearest (isFinite_of_kind hkind) ?_ hnonneg hnearest hplace
    rw [value, hkind, valueOf_finite, zpow_add_one₀ two_ne_zero]
    push_cast
    ring

/-! ## The four operations -/

theorem shiftLeft_mul_two_zpow (m k : ℕ) (e : ℤ) :
    ((m <<< k : ℕ) : ℚ) * 2 ^ (e - k) = m * 2 ^ e := by
  rw [Nat.shiftLeft_eq, zpow_sub₀ two_ne_zero, zpow_natCast]
  push_cast
  field_simp

theorem log2_shiftLeft {m : ℕ} (h : 0 < m) (k : ℕ) : (m <<< k).log2 = m.log2 + k := by
  rw [Nat.shiftLeft_eq, Nat.log2_eq_iff (by positivity), add_right_comm, pow_add, pow_add]
  exact ⟨Nat.mul_le_mul_right _ (Nat.log2_self_le h.ne'),
    Nat.mul_lt_mul_of_pos_right Nat.lt_log2_self (Nat.two_pow_pos k)⟩

/-- Rounding a number that may have too few digits, which are made up for by zeros. -/
theorem rounded_round (s : Sign) {m : ℕ} (e : ℤ) (h : 0 < m)
    (hv : m * 2 ^ e ≤ (2 : ℚ) ^ (1023 : ℤ)) :
    Rounded (factor s * (m * 2 ^ e)) (.ofModel (.pack (UnpackedFloat.round .binary64 s m e))) := by
  rw [UnpackedFloat.round, targetExponent_eq, decreaseExponent]
  generalize hk : (e - max ((m.log2 : ℤ) + e - 52) (-1074)).toNat = k
  have hlog := log2_shiftLeft h k
  refine rounded_roundWithAccuracy s ?_ (by omega) hv
  rw [← shiftLeft_mul_two_zpow m k, mul_div_cancel_right₀ _ (two_zpow_pos _).ne']
  exact shows_exact _

/-- Rounding a number with a sign, as a sum of digits may have any. -/
theorem rounded_normalize (n e : ℤ) (hv : |(n : ℚ) * 2 ^ e| ≤ 2 ^ (1023 : ℤ)) :
    Rounded (n * 2 ^ e)
      (.ofModel (.pack (UnpackedFloat.normalize .binary64 n e .positive))) := by
  have hmagnitude : (n.natAbs : ℚ) * 2 ^ e ≤ 2 ^ (1023 : ℤ) := by
    rwa [abs_mul, abs_of_pos (two_zpow_pos e), ← Int.cast_abs, Int.abs_eq_natAbs,
      Int.cast_natCast] at hv
  rcases lt_trichotomy n 0 with hneg | rfl | hpos
  · have hn : (-n).toNat = n.natAbs := by omega
    have hvalue : (n : ℚ) * 2 ^ e = factor .negative * (n.natAbs * 2 ^ e) := by
      have hcast : (n : ℚ) = -(n.natAbs : ℤ) := by exact_mod_cast (by omega : n = -(n.natAbs : ℤ))
      rw [hcast, factor]
      simp [Sign.apply]
    rw [hvalue, UnpackedFloat.normalize, Int.compare_eq_lt.mpr hneg]
    dsimp only
    rw [hn]
    exact rounded_round .negative e (by omega) hmagnitude
  · rw [Int.cast_zero, zero_mul]
    exact rounded_zero
  · have hn : n.toNat = n.natAbs := by omega
    have hvalue : (n : ℚ) * 2 ^ e = factor .positive * (n.natAbs * 2 ^ e) := by
      have hcast : (n : ℚ) = (n.natAbs : ℤ) := by exact_mod_cast (by omega : n = (n.natAbs : ℤ))
      rw [hcast, factor]
      simp [Sign.apply]
    rw [hvalue, UnpackedFloat.normalize, Int.compare_eq_gt.mpr hpos]
    dsimp only
    rw [hn]
    exact rounded_round .positive e (by omega) hmagnitude

/-- Digits moved down to a place keep the value, so two numbers can be added at one place. -/
theorem decreaseExponent_mul (m : ℕ) {e k : ℤ} (h : k ≤ e) :
    ((decreaseExponent m e k).1 : ℚ) * 2 ^ k = m * 2 ^ e := by
  have hk : e - ((e - k).toNat : ℤ) = k := by omega
  rw [← shiftLeft_mul_two_zpow m (e - k).toNat e, hk]
  rfl

theorem le_greatest {k : ℤ} (hk : k ≤ 1023) (hv : v ≤ 2 ^ k) : v ≤ 2 ^ (1023 : ℤ) :=
  hv.trans (zpow_le_zpow_right₀ one_le_two hk)

/-- **Sums** are rounded from the exact sum. Both operands are written at one place first, so
the digits of the sum are exact. -/
theorem rounded_add {k : ℤ} (hx : x.isFinite = true) (hy : y.isFinite = true) (hk : k ≤ 1023)
    (hv : |value x + value y| ≤ 2 ^ k) : Rounded (value x + value y) (x + y) := by
  replace hv := le_greatest hk hv
  change Rounded _ (.ofModel (.pack (UnpackedFloat.add .binary64 (kind x) (kind y))))
  rcases kind_of_isFinite hx with ⟨s, hkx⟩ | ⟨s, m, e, hm, hkx⟩
  · rcases kind_of_isFinite hy with ⟨t, hky⟩ | ⟨t, m', e', hm', hky⟩
    · have hsum : ∃ r, UnpackedFloat.add .binary64 (kind x) (kind y) = .zero r := by
        rw [hkx, hky]
        cases s <;> cases t <;> exact ⟨_, rfl⟩
      obtain ⟨r, hr⟩ := hsum
      rw [hr, value_of_kind_zero hkx, value_of_kind_zero hky, add_zero]
      exact rounded_zero
    · have hsum : UnpackedFloat.add .binary64 (kind x) (kind y) = kind y := by
        rw [hkx, hky]
        rfl
      rw [hsum, ofModel_pack_kind, value_of_kind_zero hkx, zero_add]
      exact rounded_value hy
  · rcases kind_of_isFinite hy with ⟨t, hky⟩ | ⟨t, m', e', hm', hky⟩
    · have hsum : UnpackedFloat.add .binary64 (kind x) (kind y) = kind x := by
        rw [hkx, hky]
        rfl
      rw [hsum, ofModel_pack_kind, value_of_kind_zero hky, add_zero]
      exact rounded_value hx
    · have hexact : ((s.apply (decreaseExponent m e (min e e')).1 +
          t.apply (decreaseExponent m' e' (min e e')).1 : ℤ) : ℚ) * 2 ^ min e e' =
            value x + value y := by
        rw [Int.cast_add, apply_eq, apply_eq, add_mul, mul_assoc, mul_assoc,
          decreaseExponent_mul m (min_le_left e e'), decreaseExponent_mul m' (min_le_right e e'),
          value_of_kind hkx, value_of_kind hky]
      rw [← hexact] at hv ⊢
      rw [hkx, hky]
      exact rounded_normalize _ _ hv

/-! ### Negation -/

theorem kind_neg (x : Float) : kind (-x) = (kind x).neg := by
  change kind (.ofModel (.pack (kind x).neg)) = _
  cases hkind : kind x with
  | notANumber => rfl
  | infinity s | zero s => cases s <;> rfl
  | finite s m e hm => exact kind_ofModel_pack hm (canonical_of_kind hkind)

theorem isFinite_neg (h : x.isFinite = true) : (-x).isFinite = true := by
  change (kind (-x)).isFinite = true
  change (kind x).isFinite = true at h
  rw [kind_neg]
  cases hkind : kind x with
  | notANumber | infinity s =>
    rw [hkind] at h
    cases h
  | zero s | finite s m e hm => rfl

theorem value_neg (x : Float) : value (-x) = -value x := by
  rw [value, value, kind_neg]
  cases kind x with
  | notANumber | infinity s | zero s => exact neg_zero.symm
  | finite s m e hm =>
    rw [UnpackedFloat.neg, valueOf_finite, valueOf_finite, factor_neg, neg_mul]

theorem sub_eq_add (x y : Float) : x - y = x + -y := by
  change Float.ofModel (.pack (UnpackedFloat.sub .binary64 (kind x) (kind y))) =
    .ofModel (.pack (UnpackedFloat.add .binary64 (kind x) (kind (-y))))
  rw [kind_neg]
  congr 2
  cases kind x with
  | notANumber => rfl
  | infinity s | zero s =>
    cases kind y with
    | notANumber | infinity t | zero t | finite t m' e' hm' => rfl
  | finite s m e hm =>
    cases kind y with
    | notANumber | infinity t | zero t => rfl
    | finite t m' e' hm' =>
      have happly (n : ℤ) : (-t).apply n = -t.apply n := by
        cases t
        · exact (neg_neg n).symm
        · rfl
      simp only [UnpackedFloat.sub, UnpackedFloat.add, UnpackedFloat.neg, happly,
        Int.sub_eq_add_neg]

/-- **Differences** are rounded from the exact difference, as sums with the negative
number. -/
theorem rounded_sub {k : ℤ} (hx : x.isFinite = true) (hy : y.isFinite = true) (hk : k ≤ 1023)
    (hv : |value x - value y| ≤ 2 ^ k) : Rounded (value x - value y) (x - y) := by
  have hneg : value x - value y = value x + value (-y) := by
    rw [value_neg, ← sub_eq_add_neg]
  rw [hneg] at hv ⊢
  rw [sub_eq_add]
  exact rounded_add hx (isFinite_neg hy) hk hv

/-- The digits of a product are enough to round it, or it is too small for any rounding to be
left out. -/
theorem mul_enough {m m' : ℕ} {e e' : ℤ} (hm : Canonical m e) (hm' : Canonical m' e') :
    52 ≤ (m * m').log2 ∨ e + e' ≤ -1074 := by
  have hpos := Nat.mul_pos hm.pos hm'.pos
  rw [Nat.le_log2 hpos.ne']
  rcases hm.normal with hfull | rfl
  · exact .inl (hfull.trans (Nat.le_mul_of_pos_right m hm'.pos))
  · rcases hm'.normal with hfull | rfl
    · exact .inl (hfull.trans (Nat.le_mul_of_pos_left m' hm.pos))
    · exact .inr (by norm_num)

/-- **Products** are rounded from the exact product, whose digits are the product of the
digits. -/
theorem rounded_mul {k : ℤ} (hx : x.isFinite = true) (hy : y.isFinite = true) (hk : k ≤ 1023)
    (hv : |value x * value y| ≤ 2 ^ k) : Rounded (value x * value y) (x * y) := by
  replace hv := le_greatest hk hv
  change Rounded _ (.ofModel (.pack (UnpackedFloat.mul .binary64 (kind x) (kind y))))
  rcases kind_of_isFinite hx with ⟨s, hkx⟩ | ⟨s, m, e, hm, hkx⟩
  · rw [value_of_kind_zero hkx, zero_mul, hkx]
    rcases kind_of_isFinite hy with ⟨t, hky⟩ | ⟨t, m', e', hm', hky⟩ <;> rw [hky] <;>
      exact rounded_zero
  · rcases kind_of_isFinite hy with ⟨t, hky⟩ | ⟨t, m', e', hm', hky⟩
    · rw [value_of_kind_zero hky, mul_zero, hkx, hky]
      exact rounded_zero
    · have hexact : value x * value y = factor (s * t) * ((m * m' : ℕ) * 2 ^ (e + e')) := by
        rw [value_of_kind hkx, value_of_kind hky, factor_mul, zpow_add₀ two_ne_zero]
        push_cast
        ring
      rw [hexact, abs_mul, abs_factor, one_mul, abs_of_nonneg (by positivity)] at hv
      rw [hexact, hkx, hky]
      refine rounded_roundWithAccuracy (s * t) ?_
        (mul_enough (canonical_of_kind hkx) (canonical_of_kind hky)) hv
      rw [mul_div_cancel_right₀ _ (two_zpow_pos _).ne']
      exact shows_exact _

/-- **Quotients** are rounded from the exact quotient, of which a few digits more than needed
are worked out. -/
theorem rounded_div {k : ℤ} (hx : x.isFinite = true) (hy : y.isFinite = true) (hne : value y ≠ 0)
    (hk : k ≤ 1023) (hv : |value x / value y| ≤ 2 ^ k) : Rounded (value x / value y) (x / y) := by
  replace hv := le_greatest hk hv
  change Rounded _ (.ofModel (.pack (UnpackedFloat.div .binary64 (kind x) (kind y))))
  rcases kind_of_isFinite hy with ⟨t, hky⟩ | ⟨t, m', e', hm', hky⟩
  · exact absurd (value_of_kind_zero hky) hne
  · rcases kind_of_isFinite hx with ⟨s, hkx⟩ | ⟨s, m, e, hm, hkx⟩
    · rw [value_of_kind_zero hkx, zero_div, hkx, hky]
      exact rounded_zero
    · have hexact : value x / value y = factor (s / t) * (m * 2 ^ e / (m' * 2 ^ e')) := by
        rw [value_of_kind hkx, value_of_kind hky, factor_div, mul_div_mul_comm]
      rw [hexact, abs_mul, abs_factor, one_mul, abs_of_nonneg (by positivity)] at hv
      rw [hexact, hkx, hky]
      exact rounded_roundWithAccuracy (s / t) (shows_divCore m e e' hm')
        (divCore_enough e e' hm hm') hv

end Compander.Double
