import Mathlib
import Compander.Transfer

/-!
# Exact arithmetic

Real numbers as the wide and the narrow format at once. Nothing is rounded, the elementary
functions are the true ones, and a curve drawn over the reals is the curve that a drawing
in doubles and singles approximates. Directions are angles here as well, with the unit vector
of an angle for its cosine and sine:

* `Knot.distance_mul_cos`, `Knot.distance_mul_sin` — the distance between two knots along
  their direction is the difference of the knots;
* `Knot.distance_of_share` — a run that is a share of another is that share of its length.

What is proved over the reals is a property of the algorithm and not of its rounding. The checks
that keep a drawing out of trouble, such as the one for a division by zero, stay where they are;
with exact arithmetic some of them never apply, and that is proved and not assumed.
-/

namespace Compander

noncomputable instance : WideArithmetic ℝ where
  beq x y := decide (x = y)
  decidableLT := inferInstance
  decidableLE := inferInstance
  abs x := |x|
  isFinite _ := true
  exp := Real.exp
  sqrt := Real.sqrt
  angle dy dx := Complex.arg ⟨dx, dy⟩
  sin := Real.sin
  cos := Real.cos
  lnTen := Real.log 10

noncomputable instance : NarrowArithmetic ℝ where
  toArithmetic := inferInstance
  ln := Real.log

instance : Precision ℝ ℝ where
  narrow x := x
  widen x := x

theorem Decibel.inNepers_pos : 0 < (Decibel.inNepers : ℝ) := by
  change 0 < Real.log 10 / 20.0
  have hlog : 0 < Real.log 10 := Real.log_pos (by norm_num)
  positivity

/-! ## Levels in nepers -/

namespace Decibel

variable {x y : ℝ}

theorem toNepers_pos (h : 0 < x) : (0 : ℝ) < toNepers x :=
  mul_pos h inNepers_pos

theorem toNepers_le_toNepers : (toNepers x : ℝ) ≤ toNepers y ↔ x ≤ y :=
  mul_le_mul_iff_left₀ inNepers_pos

theorem toNepers_lt_toNepers : (toNepers x : ℝ) < toNepers y ↔ x < y :=
  mul_lt_mul_iff_left₀ inNepers_pos

theorem abs_toNepers_sub (x y : ℝ) : |(toNepers x : ℝ) - toNepers y| = toNepers |x - y| := by
  rw [toNepers, toNepers, toNepers, ← sub_mul, abs_mul, abs_of_pos inNepers_pos]

end Decibel

/-! ## Runs between knots -/

namespace Knot

variable {p q r : Knot ℝ}

theorem distance_eq_norm (p q : Knot ℝ) :
    p.distance q = ‖(⟨q.x - p.x, q.y - p.y⟩ : ℂ)‖ := by
  rw [Complex.norm_def, Complex.normSq_mk]
  rfl

theorem distance_nonneg (p q : Knot ℝ) : 0 ≤ p.distance q := by
  rw [distance_eq_norm]
  exact norm_nonneg _

theorem distance_mul_cos (p q : Knot ℝ) :
    p.distance q * WideArithmetic.cos (p.direction q) = q.x - p.x := by
  rw [distance_eq_norm]
  exact Complex.norm_mul_cos_arg _

theorem distance_mul_sin (p q : Knot ℝ) :
    p.distance q * WideArithmetic.sin (p.direction q) = q.y - p.y := by
  rw [distance_eq_norm]
  exact Complex.norm_mul_sin_arg _

/-- Knots are at least as far apart as their levels, so a share of the distance is no more of
either. -/
theorem abs_sub_x_le_distance (p q : Knot ℝ) : |q.x - p.x| ≤ p.distance q := by
  rw [distance_eq_norm]
  exact Complex.abs_re_le_norm ⟨q.x - p.x, q.y - p.y⟩

/-- Knots are at least as far apart as their gains, by the same inequality. -/
theorem abs_sub_y_le_distance (p q : Knot ℝ) : |q.y - p.y| ≤ p.distance q := by
  rw [distance_eq_norm]
  exact Complex.abs_im_le_norm ⟨q.x - p.x, q.y - p.y⟩

theorem distance_pos (h : p.x < q.x) : 0 < p.distance q :=
  (abs_pos.mpr (sub_pos.mpr h).ne').trans_le (abs_sub_x_le_distance p q)

/-- A run that is a share of another in both differences is the same share of it in length. -/
theorem distance_of_share {share : ℝ} {p' q' : Knot ℝ} (hshare : 0 ≤ share)
    (hx : q'.x - p'.x = share * (q.x - p.x)) (hy : q'.y - p'.y = share * (q.y - p.y)) :
    p'.distance q' = share * p.distance q := by
  have hrun : (⟨share * (q.x - p.x), share * (q.y - p.y)⟩ : ℂ) =
      share • (⟨q.x - p.x, q.y - p.y⟩ : ℂ) :=
    Complex.ext (by rw [Complex.smul_re, smul_eq_mul]) (by rw [Complex.smul_im, smul_eq_mul])
  rw [distance_eq_norm, distance_eq_norm, hx, hy, hrun, norm_smul, Real.norm_of_nonneg hshare]

/-- The slope of a run that goes to the right is the usual quotient, as the guard against a
division by zero does not apply. -/
theorem slope_eq (h : p.x < q.x) : p.slope q = (q.y - p.y) / (q.x - p.x) := by
  have hdx : (0.0 : ℝ) < q.x - p.x := by
    norm_num
    exact h
  simp only [slope]
  exact if_pos hdx

theorem slope_mul (h : p.x < q.x) : p.slope q * (q.x - p.x) = q.y - p.y := by
  rw [slope_eq h, div_mul_cancel₀]
  exact (sub_pos.mpr h).ne'

/-- Two cross products nearly agree, in plain numbers: their difference is at most one part in
a million. -/
theorem isStraight_iff : isStraight p q r = true ↔
    |(q.y - p.y) * (r.x - q.x) - (r.y - q.y) * (q.x - p.x)| ≤ 1e-6 := by
  rw [isStraight, decide_eq_true_iff]
  rfl

end Knot

end Compander
