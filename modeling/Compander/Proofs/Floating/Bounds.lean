import Mathlib
import Compander.Proofs.Floating.Rounding

/-!
# Bounds of doubles

Finite doubles are compared by their values, and a bound that is a power of two goes through the
four operations, rounding included:

* `Double.compare_kind` — comparisons of finite doubles;
* `Double.Within` — a finite double of bounded magnitude, with its sums, differences, products and
  quotients;
* `Double.within_of_fits` — a bound that is read off the digits of a constant;
* `Double.Unsigned` — a number that is not negative, if it is a number at all;
* `Double.isNaN_div` — quotients that are numbers.

A power of two in the range of doubles is itself a double (`Double.IsBound`), so rounding does not
pass it: what is at most `2 ^ k` before is at most `2 ^ k` after. This is why bounds are powers of
two here, and why a chain of operations is bounded by exponents alone, without an error term for
each.
-/

namespace Compander.Double

open Float.Model (Format UnpackedFloat)
open Float.Model.UnpackedFloat

variable {x y : Float} {i j k : ℤ}

/-! ## Comparing values -/

/-- Of two numbers with their digits in place, the one with the lower last place is smaller. -/
theorem mul_two_zpow_lt {m m' : ℕ} {e e' : ℤ} (hm : Canonical m e) (hm' : Canonical m' e')
    (h : e < e' ∨ e = e' ∧ m < m') : (m : ℚ) * 2 ^ e < m' * 2 ^ e' := by
  rcases h with hlt | ⟨rfl, hlt⟩
  · have hfull : 2 ^ 52 ≤ m' := hm'.normal.resolve_right (by have := hm.least; omega)
    have hless : (m : ℚ) < 2 ^ 53 := by exact_mod_cast hm.lt
    have hmore : (2 : ℚ) ^ 52 ≤ m' := by exact_mod_cast hfull
    calc (m : ℚ) * 2 ^ e < 2 ^ 53 * 2 ^ e := mul_lt_mul_of_pos_right hless (two_zpow_pos e)
      _ = 2 ^ 52 * 2 ^ (e + 1) := by rw [zpow_add_one₀ two_ne_zero]; ring
      _ ≤ m' * 2 ^ (e + 1) := mul_le_mul_of_nonneg_right hmore (two_zpow_pos _).le
      _ ≤ m' * 2 ^ e' :=
        mul_le_mul_of_nonneg_left (zpow_le_zpow_right₀ one_le_two (by omega)) (Nat.cast_nonneg _)
  · exact mul_lt_mul_of_pos_right (by exact_mod_cast hlt) (two_zpow_pos e)

/-- Digits are compared after their last place: of two numbers in the one form of doubles, the
one with the greater exponent is greater. -/
theorem compare_then_eq {m m' : ℕ} {e e' : ℤ} (hm : Canonical m e) (hm' : Canonical m' e') :
    (compare e e').then (compare m m') = compare ((m : ℚ) * 2 ^ e) (m' * 2 ^ e') := by
  rcases lt_trichotomy e e' with hlt | rfl | hgt
  · rw [compare_lt_iff_lt.mpr hlt, compare_lt_iff_lt.mpr (mul_two_zpow_lt hm hm' (.inl hlt))]
    rfl
  · rw [compare_eq_iff_eq.mpr rfl, Ordering.eq_then]
    rcases lt_trichotomy m m' with hlt | rfl | hgt
    · rw [compare_lt_iff_lt.mpr hlt,
        compare_lt_iff_lt.mpr (mul_two_zpow_lt hm hm' (.inr ⟨rfl, hlt⟩))]
    · rw [compare_eq_iff_eq.mpr rfl, compare_eq_iff_eq.mpr rfl]
    · rw [compare_gt_iff_gt.mpr hgt,
        compare_gt_iff_gt.mpr (mul_two_zpow_lt hm' hm (.inr ⟨rfl, hgt⟩))]
  · rw [compare_gt_iff_gt.mpr hgt, compare_gt_iff_gt.mpr (mul_two_zpow_lt hm' hm (.inl hgt))]
    rfl

theorem factor_positive : factor .positive = 1 :=
  Int.cast_one

theorem factor_negative : factor .negative = -1 := by
  rw [factor, Sign.apply, Int.cast_neg, Int.cast_one]

theorem value_of_positive {m : ℕ} {e : ℤ} {hm : 0 < m} (h : kind x = .finite .positive m e hm) :
    value x = m * 2 ^ e := by
  rw [value_of_kind h, factor_positive, one_mul]

theorem value_of_negative {m : ℕ} {e : ℤ} {hm : 0 < m} (h : kind x = .finite .negative m e hm) :
    value x = -(m * 2 ^ e) := by
  rw [value_of_kind h, factor_negative, neg_one_mul]

theorem mul_two_zpow_pos {m : ℕ} (h : 0 < m) (e : ℤ) : (0 : ℚ) < m * 2 ^ e :=
  mul_pos (by exact_mod_cast h) (two_zpow_pos e)

theorem compare_neg_neg (a b : ℚ) : compare (-a) (-b) = (compare a b).swap := by
  rcases lt_trichotomy a b with hlt | rfl | hgt
  · rw [compare_lt_iff_lt.mpr hlt, compare_gt_iff_gt.mpr (neg_lt_neg hlt)]
    rfl
  · rw [compare_eq_iff_eq.mpr rfl, compare_eq_iff_eq.mpr rfl]
    rfl
  · rw [compare_gt_iff_gt.mpr hgt, compare_lt_iff_lt.mpr (neg_lt_neg hgt)]
    rfl

/-- **Finite doubles** are compared by their values, zeros of either sign being equal. -/
theorem compare_kind (hx : x.isFinite = true) (hy : y.isFinite = true) :
    (kind x).compare (kind y) = some (compare (value x) (value y)) := by
  rcases kind_of_isFinite hx with ⟨s, hkx⟩ | ⟨s, m, e, hm, hkx⟩
  · rw [value_of_kind_zero hkx]
    rcases kind_of_isFinite hy with ⟨t, hky⟩ | ⟨t, m', e', hm', hky⟩
    · rw [value_of_kind_zero hky, hkx, hky, compare_eq_iff_eq.mpr rfl]
      rfl
    · have hpos := mul_two_zpow_pos hm' e'
      cases t with
      | negative =>
        rw [value_of_negative hky, hkx, hky, compare_gt_iff_gt.mpr (neg_neg_of_pos hpos)]
        rfl
      | positive =>
        rw [value_of_positive hky, hkx, hky, compare_lt_iff_lt.mpr hpos]
        rfl
  · have hpos := mul_two_zpow_pos hm e
    rcases kind_of_isFinite hy with ⟨t, hky⟩ | ⟨t, m', e', hm', hky⟩
    · rw [value_of_kind_zero hky]
      cases s with
      | negative =>
        rw [value_of_negative hkx, hkx, hky, compare_lt_iff_lt.mpr (neg_neg_of_pos hpos)]
        rfl
      | positive =>
        rw [value_of_positive hkx, hkx, hky, compare_gt_iff_gt.mpr hpos]
        rfl
    · have hpos' := mul_two_zpow_pos hm' e'
      have hsame := compare_then_eq (canonical_of_kind hkx) (canonical_of_kind hky)
      cases s with
      | negative =>
        rw [value_of_negative hkx]
        cases t with
        | negative =>
          rw [value_of_negative hky, hkx, hky, UnpackedFloat.compare, hsame, compare_neg_neg]
        | positive =>
          rw [value_of_positive hky, hkx, hky, compare_lt_iff_lt.mpr (by linarith)]
          rfl
      | positive =>
        rw [value_of_positive hkx]
        cases t with
        | negative =>
          rw [value_of_negative hky, hkx, hky, compare_gt_iff_gt.mpr (by linarith)]
          rfl
        | positive =>
          rw [value_of_positive hky, hkx, hky, UnpackedFloat.compare, hsame]

theorem lt_iff_value_lt (hx : x.isFinite = true) (hy : y.isFinite = true) :
    x < y ↔ value x < value y := by
  rw [lt_iff, compare_kind hx hy, Option.some_inj, compare_lt_iff_lt]

theorem le_value_of_not_lt (hx : x.isFinite = true) (hy : y.isFinite = true) (h : ¬x < y) :
    value y ≤ value x :=
  not_lt.mp fun hlt => h ((lt_iff_value_lt hx hy).mpr hlt)

theorem beq_iff_value_eq (hx : x.isFinite = true) (hy : y.isFinite = true) :
    (x == y) = true ↔ value x = value y := by
  change ((kind x).compare (kind y) == some .eq) = true ↔ _
  rw [beq_iff_eq, compare_kind hx hy, Option.some_inj, compare_eq_iff_eq]

/-! ## Bounds -/

/-- A finite double, not above a power of two in magnitude. -/
structure Within (k : ℤ) (x : Float) : Prop where
  /-- it is finite -/
  isFinite : x.isFinite = true
  /-- it is not above the power of two -/
  abs_le : |value x| ≤ 2 ^ k

/-- A power of two that rounding to a double keeps to. -/
def IsBound (k : ℤ) : Prop :=
  -1074 ≤ k ∧ k ≤ 1023

instance (k : ℤ) : Decidable (IsBound k) :=
  inferInstanceAs (Decidable (_ ∧ _))

theorem Within.mono (h : Within j x) (hjk : j ≤ k) : Within k x :=
  ⟨h.isFinite, h.abs_le.trans (zpow_le_zpow_right₀ one_le_two hjk)⟩

theorem Within.neg (h : Within k x) : Within k (-x) := by
  refine ⟨isFinite_neg h.isFinite, ?_⟩
  rw [value_neg, abs_neg]
  exact h.abs_le

theorem Rounded.within {v : ℚ} (h : Rounded v x) (hk : -1074 ≤ k) (hv : |v| ≤ 2 ^ k) :
    Within k x :=
  ⟨h.isFinite, h.abs_le k hk hv⟩

theorem two_zpow_add_le (hi : i < k) (hj : j < k) : (2 : ℚ) ^ i + 2 ^ j ≤ 2 ^ k := by
  have hhalf : (2 : ℚ) ^ k = 2 ^ (k - 1) + 2 ^ (k - 1) := by
    rw [zpow_sub_one₀ two_ne_zero]
    ring
  rw [hhalf]
  exact add_le_add (zpow_le_zpow_right₀ one_le_two (by omega))
    (zpow_le_zpow_right₀ one_le_two (by omega))

theorem Within.add (hx : Within i x) (hy : Within j y) (h : max i j < k ∧ IsBound k) :
    Within k (x + y) := by
  obtain ⟨hij, hlow, hhigh⟩ := h
  have hsum : |value x + value y| ≤ 2 ^ k := (abs_add_le _ _).trans
    ((add_le_add hx.abs_le hy.abs_le).trans (two_zpow_add_le (by omega) (by omega)))
  exact (rounded_add hx.isFinite hy.isFinite hhigh hsum).within hlow hsum

theorem Within.sub (hx : Within i x) (hy : Within j y) (h : max i j < k ∧ IsBound k) :
    Within k (x - y) := by
  rw [sub_eq_add]
  exact hx.add hy.neg h

theorem Within.mul (hx : Within i x) (hy : Within j y) (h : i + j ≤ k ∧ IsBound k) :
    Within k (x * y) := by
  obtain ⟨hij, hlow, hhigh⟩ := h
  have hproduct : |value x * value y| ≤ 2 ^ k := by
    rw [abs_mul]
    refine (mul_le_mul hx.abs_le hy.abs_le (abs_nonneg _) (two_zpow_pos i).le).trans ?_
    rw [← zpow_add₀ two_ne_zero]
    exact zpow_le_zpow_right₀ one_le_two hij
  exact (rounded_mul hx.isFinite hy.isFinite hhigh hproduct).within hlow hproduct

/-- A finite double, not below a power of two in magnitude. -/
structure AtLeast (k : ℤ) (x : Float) : Prop where
  /-- it is finite -/
  isFinite : x.isFinite = true
  /-- it is not below the power of two -/
  le_abs : 2 ^ k ≤ |value x|

theorem Within.div (hx : Within i x) (hy : AtLeast j y) (h : i - j ≤ k ∧ IsBound k) :
    Within k (x / y) := by
  obtain ⟨hij, hlow, hhigh⟩ := h
  have hj := hy.le_abs
  have hpos : 0 < |value y| := (two_zpow_pos j).trans_le hj
  have hquotient : |value x / value y| ≤ 2 ^ k := by
    rw [abs_div, div_le_iff₀ hpos]
    calc |value x| ≤ 2 ^ i := hx.abs_le
      _ = 2 ^ (i - j) * 2 ^ j := by rw [← zpow_add₀ two_ne_zero, sub_add_cancel]
      _ ≤ 2 ^ k * |value y| :=
        mul_le_mul (zpow_le_zpow_right₀ one_le_two hij) hj (two_zpow_pos j).le (two_zpow_pos k).le
  exact (rounded_div hx.isFinite hy.isFinite (abs_pos.mp hpos) hhigh hquotient).within hlow
    hquotient

/-- A difference that is known more exactly than the magnitudes of its operands tell. -/
theorem within_sub (hx : x.isFinite = true) (hy : y.isFinite = true) (hk : IsBound k)
    (h : |value x - value y| ≤ 2 ^ k) : Within k (x - y) :=
  (rounded_sub hx hy hk.2 h).within hk.1 h

theorem atLeast_add (hx : x.isFinite = true) (hy : y.isFinite = true) (hj : -1074 ≤ j)
    (hk : k ≤ 1023) (hlow : 2 ^ j ≤ |value x + value y|) (hhigh : |value x + value y| ≤ 2 ^ k) :
    AtLeast j (x + y) :=
  have hsum := rounded_add hx hy hk hhigh
  ⟨hsum.isFinite, hsum.le_abs j hj hlow⟩

/-- Whether a double is finite and has no digit at a place. -/
def fits (k : ℤ) (x : Float) : Bool :=
  match kind x with
  | .zero _ => true
  | .finite _ m e _ => m.log2 + 1 + e ≤ k
  | _ => false

/-- A bound that is read off the digits, which for a constant is a matter of computation. -/
theorem within_of_fits (h : fits k x = true) : Within k x := by
  rw [fits] at h
  split at h
  · rename_i s hkind
    refine ⟨isFinite_of_kind_zero hkind, ?_⟩
    rw [value_of_kind_zero hkind, abs_zero]
    exact (two_zpow_pos k).le
  · rename_i s m e hm hkind
    refine ⟨isFinite_of_kind hkind, ?_⟩
    rw [value_of_kind hkind, abs_mul, abs_factor, one_mul, abs_of_pos (mul_two_zpow_pos hm e)]
    calc (m : ℚ) * 2 ^ e ≤ 2 ^ ((m.log2 : ℤ) + 1) * 2 ^ e := by
          refine mul_le_mul_of_nonneg_right ?_ (two_zpow_pos e).le
          exact_mod_cast Nat.lt_log2_self.le
      _ ≤ 2 ^ k := by
          rw [← zpow_add₀ two_ne_zero]
          exact zpow_le_zpow_right₀ one_le_two (of_decide_eq_true h)
  · cases h

/-! ## Signs -/

/-- A number of a given sign, or zero, or none at all. -/
def SignIs (s : Sign) : UnpackedFloat → Prop
  | .infinity t | .finite t _ _ _ => t = s
  | .zero _ | .notANumber => True

/-- A number has the sign of its bits, whatever else they say. -/
theorem signIs_unpack {spec : Format} (b : BitVec spec.numBits) :
    SignIs (Sign.ofBitVec (unpackSign b)) (unpack spec b) := by
  simp only [unpack]
  split
  · split
    · exact rfl
    · trivial
  · split
    · split
      · trivial
      · exact rfl
    · exact rfl

/-- Bits keep the sign of a number, and so do those of zeros and infinities. -/
theorem signIs_kind_pack {s : Sign} {u : UnpackedFloat} (h : SignIs s u) :
    SignIs s (kind (.ofModel (.pack u))) := by
  have hbits (field : BitVec Format.binary64.exponentBits) (fraction) :
      SignIs s (unpack .binary64 (packComponents .binary64 s field fraction)) := by
    have hsign := signIs_unpack (packComponents .binary64 s field fraction)
    rwa [Packing.unpackSign_packComponents] at hsign
  cases u with
  | notANumber => trivial
  | zero t => cases t <;> trivial
  | infinity t =>
    obtain rfl : t = s := h
    exact hbits _ _
  | finite t m e hm =>
    obtain rfl : t = s := h
    change SignIs t (unpack .binary64 (pack .binary64 (.finite t m e hm)))
    simp only [pack]
    split
    · exact hbits _ _
    · split
      · exact hbits _ _
      · exact hbits _ _

theorem signIs_roundWithAccuracy (s : Sign) (m : ℕ) (e : ℤ) (a : Accuracy) :
    SignIs s (roundWithAccuracy .binary64 s m e a) := by
  simp only [roundWithAccuracy]
  split
  · trivial
  · exact rfl

/-- A number that is not negative: it carries no minus sign, or is zero. -/
def Unsigned (x : Float) : Prop :=
  SignIs .positive (kind x)

theorem unsigned_sqrt (x : Float) : Unsigned x.sqrt := by
  refine signIs_kind_pack (u := UnpackedFloat.sqrt .binary64 (kind x)) ?_
  cases kind x with
  | notANumber | zero => trivial
  | infinity s =>
    cases s with
    | negative => trivial
    | positive => exact rfl
  | finite s m e hm =>
    cases s with
    | negative => trivial
    | positive => exact signIs_roundWithAccuracy ..

theorem Unsigned.half (h : Unsigned x) : Unsigned (x / 2.0) := by
  have htwo : kind 2.0 = .finite .positive (2 ^ 52) (-51) (Nat.two_pow_pos 52) := rfl
  refine signIs_kind_pack (u := UnpackedFloat.div .binary64 (kind x) (kind 2.0)) ?_
  rw [htwo]
  rw [Unsigned] at h
  cases hkind : kind x with
  | notANumber | zero => trivial
  | infinity s =>
    rw [hkind] at h
    obtain rfl : s = .positive := h
    exact rfl
  | finite s m e hm =>
    rw [hkind] at h
    obtain rfl : s = .positive := h
    exact signIs_roundWithAccuracy ..

theorem kind_abs (x : Float) : kind x.abs = (kind x).abs := by
  change kind (.ofModel (.pack (kind x).abs)) = _
  cases hkind : kind x with
  | notANumber => rfl
  | infinity s | zero s => cases s <;> rfl
  | finite s m e hm => exact kind_ofModel_pack hm (canonical_of_kind hkind)

theorem unsigned_abs (x : Float) : Unsigned x.abs := by
  rw [Unsigned, kind_abs]
  cases kind x with
  | notANumber | infinity s | zero s | finite s m e hm => trivial

/-- What is not negative and below a finite number is finite, with its value between zero and
that number. -/
theorem Unsigned.of_lt (h : Unsigned x) (hy : y.isFinite = true) (hlt : x < y) :
    x.isFinite = true ∧ 0 ≤ value x ∧ value x < value y := by
  have hfinite : x.isFinite = true := by
    change (kind x).isFinite = true
    rw [lt_iff] at hlt
    rw [Unsigned] at h
    cases hkind : kind x with
    | zero s | finite s m e hm => rfl
    | notANumber =>
      rw [hkind] at hlt
      cases hlt
    | infinity s =>
      rw [hkind] at h hlt
      obtain rfl : s = .positive := h
      -- nothing finite is above infinity
      rcases kind_of_isFinite hy with ⟨t, hky⟩ | ⟨t, m', e', hm', hky⟩
      · rw [hky] at hlt
        cases hlt
      · rw [hky] at hlt
        cases hlt
  refine ⟨hfinite, ?_, (lt_iff_value_lt hfinite hy).mp hlt⟩
  rcases kind_of_isFinite hfinite with ⟨s, hkx⟩ | ⟨s, m, e, hm, hkx⟩
  · rw [value_of_kind_zero hkx]
  · rw [Unsigned, hkx] at h
    obtain rfl : s = .positive := h
    rw [value_of_positive hkx]
    exact (mul_two_zpow_pos hm e).le

/-- It lies between two numbers that it is compared with, and so do the values. -/
theorem Unsigned.between {low high : Float} (h : Unsigned x) (hlow : low.isFinite = true)
    (hhigh : high.isFinite = true) (hge : ¬x < low) (hlt : x < high) :
    x.isFinite = true ∧ value low ≤ value x ∧ value x ≤ value high := by
  obtain ⟨hfinite, -, hless⟩ := h.of_lt hhigh hlt
  exact ⟨hfinite, le_value_of_not_lt hfinite hlow hge, hless.le⟩

/-! ## Numbers -/

theorem isNaN_of_isFinite (h : x.isFinite = true) : x.isNaN = false := by
  change (kind x).isNaN = false
  rcases kind_of_isFinite h with ⟨s, hkx⟩ | ⟨s, m, e, hm, hkx⟩ <;> rw [hkx] <;> rfl

/-- The bits of a number stand for a number, and those of none for none. -/
theorem isNaN_kind_pack (u : UnpackedFloat) : (kind (.ofModel (.pack u))).isNaN = u.isNaN := by
  cases u with
  | notANumber => rfl
  | infinity s | zero s => cases s <;> rfl
  | finite s m e hm => exact Single.isNaN_unpack_pack_finite .binary64 s m e hm

/-- A quotient of finite numbers is a number if the second is not zero. It may be infinite. -/
theorem isNaN_div (hx : x.isFinite = true) (hy : y.isFinite = true) (hne : value y ≠ 0) :
    (x / y).isNaN = false := by
  refine (isNaN_kind_pack (UnpackedFloat.div .binary64 (kind x) (kind y))).trans ?_
  rcases kind_of_isFinite hy with ⟨t, hky⟩ | ⟨t, m', e', hm', hky⟩
  · exact absurd (value_of_kind_zero hky) hne
  · rw [hky]
    rcases kind_of_isFinite hx with ⟨s, hkx⟩ | ⟨s, m, e, hm, hkx⟩ <;> rw [hkx]
    · rfl
    · exact Single.isNaN_roundWithAccuracy ..

/-- So is one by a positive number, which cannot be zero over zero. -/
theorem isNaN_div_of_pos (hx : x.isFinite = true) (hy : y.isFinite = true) (hpos : 0.0 < y) :
    (x / y).isNaN = false := by
  have hvalue := (lt_iff_value_lt rfl hy).mp hpos
  have hzero : value 0.0 = 0 := by decide +kernel
  rw [hzero] at hvalue
  exact isNaN_div hx hy hvalue.ne'

theorem isNaN_zero : (0.0 : Float).isNaN = false :=
  rfl

theorem isNaN_abs (h : x.isNaN = false) : x.abs.isNaN = false := by
  change (kind x.abs).isNaN = false
  change (kind x).isNaN = false at h
  rw [kind_abs]
  cases hkind : kind x with
  | notANumber =>
    rw [hkind] at h
    cases h
  | infinity s | zero s | finite s m e hm => rfl

end Compander.Double
