import Compander.Elementary.Angle
import Compander.Proofs.Floating.Bounds

/-!
# Bounds of directions

The direction of a vector, and the sine and the cosine of a direction, are finite, and not large.
Every step of the series is bounded by a power of two, some very generously. What has to be known
more exactly is where a quotient is taken, and where digits cancel:

* `Elementary.within_angle` — the direction of a finite vector;
* `Elementary.less_lessQuarterTurns` — a direction less some quarter turns, and what was lost in
  taking them away;
* `Elementary.within_sine`, `Elementary.within_cosine` — the sine and the cosine of a direction.

No bound here says how good the approximation is. For the finiteness of a curve it is enough that
no intermediate result overflows, and the coefficients of the series are small enough for that by
a wide margin; each is read off its digits. The reduction by quarter turns is the exception, since
a remainder is only small if hardly anything was lost in the subtraction.
-/

namespace Compander.Elementary

open Double

variable {x y w high low rest : Float} {k : ℤ}

/-! ## The arctangent -/

/-- The series of the arctangent is at most a half, for a number of at most a half. -/
theorem within_arctanDefect (hx : Within (-1) x) : Within (-1) (arctanDefect x) := by
  have hz : Within (-2) (x * x) := hx.mul hx (by decide)
  have hw : Within (-4) (x * x * (x * x)) := hz.mul hz (by decide)
  -- one more coefficient of at most a half keeps the rest of a series at most one
  have hstep {c p : Float} (hc : fits (-1) c = true) (hp : Within 0 p) :
      Within 0 (c + x * x * (x * x) * p) :=
    have hproduct : Within (-4) (x * x * (x * x) * p) := hw.mul hp (by decide)
    (within_of_fits hc).add hproduct (by decide)
  refine Within.add (i := -2) (j := -3) (hz.mul ?_ (by decide : -2 + 0 ≤ -2 ∧ IsBound (-2)))
    (hw.mul ?_ (by decide : -4 + 0 ≤ -3 ∧ IsBound (-3))) (by decide)
  · exact hstep (by decide +kernel) (hstep (by decide +kernel) (hstep (by decide +kernel)
      (hstep (by decide +kernel) (hstep (by decide +kernel) (within_of_fits (by decide +kernel))))))
  · exact hstep (by decide +kernel) (hstep (by decide +kernel) (hstep (by decide +kernel)
      (hstep (by decide +kernel) (within_of_fits (by decide +kernel)))))

/-- A sum with an arctangent of a number of at most a half, in the two parts that the table
gives. -/
theorem within_arctanFrom (hhigh : fits 1 high = true) (hlow : fits (-50) low = true)
    (hx : Within (-1) x) : Within 2 (arctanFrom high low x) := by
  have hproduct : Within (-2) (x * arctanDefect x) :=
    hx.mul (within_arctanDefect hx) (by decide)
  have hless : Within (-1) (x * arctanDefect x - low) :=
    hproduct.sub (within_of_fits hlow) (by decide)
  have hrest : Within 0 (x * arctanDefect x - low - x) := hless.sub hx (by decide)
  exact (within_of_fits hhigh).sub hrest (by decide)

theorem value_one : value 1.0 = 1 := by
  decide +kernel

theorem value_two : value 2.0 = 2 := by
  decide +kernel

theorem value_one_and_half : value 1.5 = 3 / 2 := by
  decide +kernel

/-- A product with a small factor, to within a unit of its last place. The bound by a power of
two alone would be too coarse where digits cancel. -/
theorem abs_value_mul_sub_le (hx : x.isFinite = true) (hy : y.isFinite = true)
    (h : |value x * value y| ≤ 2 ^ (3 : ℤ)) :
    (x * y).isFinite = true ∧ |value (x * y) - value x * value y| ≤ 2 ^ (-50 : ℤ) :=
  have hproduct := rounded_mul hx hy (by decide) h
  ⟨hproduct.isFinite, hproduct.abs_sub_le 3 (by decide) h⟩

section Reduced

/-! The arguments that an arctangent is reduced to are at most a half. -/

variable (hx : x.isFinite = true)

include hx

theorem within_reduced_first (hlow : 7 / 16 ≤ value x) (hhigh : value x ≤ 11 / 16) :
    Within (-1) ((2.0 * x - 1.0) / (2.0 + x)) := by
  obtain ⟨hfinite, hdouble⟩ := abs_value_mul_sub_le (x := 2.0) rfl hx (by
    rw [value_two, abs_of_nonneg (by linarith)]
    linarith)
  have hnumerator : Within (-1) (2.0 * x - 1.0) := by
    refine within_sub hfinite rfl (by decide) ?_
    rw [value_two] at hdouble
    rw [value_one]
    norm_num [abs_le] at hdouble ⊢
    constructor <;> linarith
  have hdenominator : AtLeast 1 (2.0 + x) := by
    have hsum : |value 2.0 + value x| = 2 + value x := by
      rw [value_two, abs_of_nonneg (by linarith)]
    refine atLeast_add (k := 2) rfl hx (by decide) (by decide) ?_ ?_ <;> rw [hsum] <;> linarith
  exact hnumerator.div hdenominator (by decide)

theorem within_reduced_second (hlow : 11 / 16 ≤ value x) (hhigh : value x ≤ 19 / 16) :
    Within (-1) ((x - 1.0) / (x + 1.0)) := by
  have hnumerator : Within (-1) (x - 1.0) := by
    refine within_sub hx rfl (by decide) ?_
    rw [value_one]
    norm_num [abs_le]
    constructor <;> linarith
  have hdenominator : AtLeast 0 (x + 1.0) := by
    have hsum : |value x + value 1.0| = value x + 1 := by
      rw [value_one, abs_of_nonneg (by linarith)]
    refine atLeast_add (k := 2) hx rfl (by decide) (by decide) ?_ ?_ <;> rw [hsum] <;> linarith
  exact hnumerator.div hdenominator (by decide)

theorem within_reduced_third (hlow : 19 / 16 ≤ value x) (hhigh : value x ≤ 39 / 16) :
    Within (-1) ((x - 1.5) / (1.0 + 1.5 * x)) := by
  have hnumerator : Within 0 (x - 1.5) := by
    refine within_sub hx rfl (by decide) ?_
    rw [value_one_and_half]
    norm_num [abs_le]
    constructor <;> linarith
  obtain ⟨hfinite, hproduct⟩ := abs_value_mul_sub_le (x := 1.5) rfl hx (by
    rw [value_one_and_half, abs_of_nonneg (by linarith)]
    norm_num
    linarith)
  have hdenominator : AtLeast 1 (1.0 + 1.5 * x) := by
    rw [value_one_and_half] at hproduct
    norm_num [abs_le] at hproduct
    have hsum : |value 1.0 + value (1.5 * x)| = 1 + value (1.5 * x) := by
      rw [value_one, abs_of_nonneg (by linarith)]
    refine atLeast_add (k := 3) rfl hfinite (by decide) (by decide) ?_ ?_ <;> rw [hsum] <;>
      norm_num <;> linarith
  exact hnumerator.div hdenominator (by decide)

theorem within_reduced_fourth (hlow : 39 / 16 ≤ value x) : Within (-1) (-1.0 / x) := by
  have hone : Within 0 (-1.0) := ⟨rfl, by decide +kernel⟩
  refine hone.div (j := 1) ⟨hx, ?_⟩ (by decide)
  rw [abs_of_nonneg (by linarith)]
  linarith

end Reduced

/-- The arctangent of a number that is not negative is small; the number itself may be
infinite. -/
theorem within_arctanMagnitude (hx : Unsigned x) (hnan : x.isNaN = false) :
    Within 2 (arctanMagnitude x) := by
  have hsmallest : value (Float.ofBits 0x3e40000000000000) ≤ 2 ^ (2 : ℤ) := by decide +kernel
  have hsmall : value 0.4375 ≤ 2 ^ (-1 : ℤ) := by decide +kernel
  have hfirst : value 0.4375 = 7 / 16 := by decide +kernel
  have hsecond : value 0.6875 = 11 / 16 := by decide +kernel
  have hthird : value 1.1875 = 19 / 16 := by decide +kernel
  have hfourth : value 2.4375 = 39 / 16 := by decide +kernel
  rw [arctanMagnitude, if_neg (Bool.eq_false_iff.mp hnan)]
  -- what is below a bound is finite; what is not below it passes on to the next range
  split
  · rename_i hlt
    obtain ⟨hfinite, hnonneg, hless⟩ := hx.of_lt rfl hlt
    exact ⟨hfinite, (abs_of_nonneg hnonneg).trans_le (hless.le.trans hsmallest)⟩
  split
  · rename_i hlt
    obtain ⟨hfinite, hnonneg, hless⟩ := hx.of_lt rfl hlt
    have hhalf : Within (-1) x :=
      ⟨hfinite, (abs_of_nonneg hnonneg).trans_le (hless.le.trans hsmall)⟩
    have hproduct : Within (-2) (x * arctanDefect x) :=
      hhalf.mul (within_arctanDefect hhalf) (by decide)
    exact hhalf.sub hproduct (by decide)
  rename_i hge
  split
  · rename_i hlt
    obtain ⟨hfinite, hmore, hless⟩ := hx.between rfl rfl hge hlt
    exact within_arctanFrom (by decide +kernel) (by decide +kernel)
      (within_reduced_first hfinite (hfirst.ge.trans hmore) (hless.trans hsecond.le))
  rename_i hge
  split
  · rename_i hlt
    obtain ⟨hfinite, hmore, hless⟩ := hx.between rfl rfl hge hlt
    exact within_arctanFrom (by decide +kernel) (by decide +kernel)
      (within_reduced_second hfinite (hsecond.ge.trans hmore) (hless.trans hthird.le))
  rename_i hge
  split
  · rename_i hlt
    obtain ⟨hfinite, hmore, hless⟩ := hx.between rfl rfl hge hlt
    exact within_arctanFrom (by decide +kernel) (by decide +kernel)
      (within_reduced_third hfinite (hthird.ge.trans hmore) (hless.trans hfourth.le))
  rename_i hge
  split
  · rename_i hlt
    obtain ⟨hfinite, hmore, -⟩ := hx.between rfl rfl hge hlt
    exact within_arctanFrom (by decide +kernel) (by decide +kernel)
      (within_reduced_fourth hfinite (hfourth.ge.trans hmore))
  · exact within_of_fits (by decide +kernel)

/-! ## The direction of a vector -/

theorem within_withSign (h : Within k x) (negative : Bool) : Within k (withSign negative x) := by
  rw [withSign]
  split
  · exact h.neg
  · exact h

theorem within_acute (hacute : Within 2 x) (dx dy : Bool) :
    Within 4 (match dx, dy with
      | false, negative => withSign negative x
      | true, false => pi - (x - piRest)
      | true, true => (x - piRest) - pi) := by
  have hpi : Within 2 pi := within_of_fits (by decide +kernel)
  have hrest : Within 3 (x - piRest) :=
    hacute.sub (within_of_fits (k := -50) (by decide +kernel)) (by decide)
  match dx, dy with
  | false, negative => exact (within_withSign hacute negative).mono (by decide)
  | true, false => exact hpi.sub hrest (by decide)
  | true, true => exact hrest.sub hpi (by decide)

/-- **Directions** of finite vectors are finite and not above sixteen, whichever quadrant the
vector lies in. -/
theorem within_angle {dy dx : Float} (hdy : dy.isFinite = true) (hdx : dx.isFinite = true) :
    Within 4 (angle dy dx) := by
  have hpi : Within 4 pi := within_of_fits (by decide +kernel)
  have hright : Within 4 (pi / 2.0) := within_of_fits (by decide +kernel)
  have hnan : (dx.isNaN || dy.isNaN) = false := by
    rw [isNaN_of_isFinite hdx, isNaN_of_isFinite hdy]
    rfl
  rw [angle, hnan, hdx, hdy]
  simp only [Bool.false_eq_true, if_false, Bool.not_true, Bool.and_self, Bool.or_false]
  split
  · rename_i hzero
    split
    · exact within_withSign hpi _
    · rw [beq_iff_value_eq hdy rfl] at hzero
      refine ⟨hdy, ?_⟩
      rw [hzero]
      decide +kernel
  split
  · exact within_withSign hright _
  rename_i hne
  have hvalue : value dx ≠ 0 := by
    intro hzero
    exact hne ((beq_iff_value_eq hdx rfl).mpr (hzero.trans (by decide +kernel)))
  split
  · exact within_withSign hright _
  · refine within_acute ?_ _ _
    split
    · exact within_of_fits (by decide +kernel)
    · exact within_arctanMagnitude (unsigned_abs _) (isNaN_abs (isNaN_div hdy hdx hvalue))

/-! ## Sine and cosine -/

/-- What the sine and the cosine are worked out from: an angle less some quarter turns, and what
was lost in taking them away. -/
structure Less (y rest : Float) : Prop where
  /-- the angle is not large -/
  angle : Within 5 y
  /-- what was lost is small -/
  rest : Within 0 rest

/-- Taking away a small part changes a number little, and what is lost by it is small. -/
theorem lost_within {r : Float} {bound : ℚ} (hr : r.isFinite = true) (hvalue : |value r| ≤ bound)
    (hbound : bound ≤ 30) (hw : Within k w) (hk : -46 ≤ k ∧ k ≤ -10) :
    (r - w).isFinite = true ∧ |value (r - w)| ≤ bound + 1 / 100 ∧
      Within (k + 2) (r - (r - w) - w) := by
  have hpart := hw.abs_le
  have hsmall : (2 : ℚ) ^ k ≤ 2 ^ (-10 : ℤ) := zpow_le_zpow_right₀ one_le_two hk.2
  have hunit : (2 : ℚ) ^ (-48 : ℤ) ≤ 2 ^ k := zpow_le_zpow_right₀ one_le_two (by omega)
  have htwice : (2 : ℚ) ^ (k + 1) = 2 ^ k + 2 ^ k := by
    rw [zpow_add_one₀ two_ne_zero]
    ring
  rw [abs_le] at hvalue hpart
  have hdiff : |value r - value w| ≤ 2 ^ (5 : ℤ) := by
    norm_num at hsmall
    rw [abs_le]
    norm_num
    constructor <;> linarith
  have hy := rounded_sub hr hw.isFinite (by decide) hdiff
  have hnear := hy.abs_sub_le 5 (by decide) hdiff
  rw [abs_le] at hnear
  norm_num at hsmall hunit hnear
  have hlost : |value r - value (r - w)| ≤ 2 ^ (k + 1) := by
    rw [htwice, abs_le]
    constructor <;> linarith
  refine ⟨hy.isFinite, ?_, ?_⟩
  · rw [abs_le]
    constructor <;> linarith
  · exact (within_sub hr hy.isFinite ⟨by omega, by omega⟩ hlost).sub hw
      ⟨by omega, by omega, by omega⟩

theorem less_of_lost {r : Float} {bound : ℚ} (hr : r.isFinite = true) (hvalue : |value r| ≤ bound)
    (hbound : bound ≤ 30) (hw : Within k w) (hk : -46 ≤ k ∧ k ≤ -10) :
    Less (r - w) (r - (r - w) - w) := by
  obtain ⟨hfinite, hangle, hrest⟩ := lost_within hr hvalue hbound hw hk
  refine ⟨⟨hfinite, hangle.trans ?_⟩, hrest.mono (by omega)⟩
  norm_num
  linarith

/-- One or two quarter turns, either way round, are small whole numbers and so exact. -/
theorem within_turns (few back : Bool) :
    Within 2 (Float.ofInt (if back then -((if few then 1 else 2 : ℕ) : ℤ)
      else (if few then 1 else 2 : ℕ))) := by
  cases few <;> cases back <;> exact within_of_fits (by decide +kernel)

/-- **An angle less some quarter turns.** Each further part of them that is taken away is smaller
than what was lost before. -/
theorem less_lessQuarterTurns (hx : Within 4 x) :
    Less (lessQuarterTurns x).2.1 (lessQuarterTurns x).2.2 := by
  rw [lessQuarterTurns]
  have hturns := within_turns (leading x ≤ 0x4002d97c) (signed x)
  simp only [decide_eq_true_eq] at hturns
  generalize (if leading x ≤ 0x4002d97c then 1 else 2 : ℕ) = count at hturns ⊢
  generalize (if signed x then -(count : ℤ) else count) = turns at hturns ⊢
  dsimp only
  generalize Float.ofInt turns = factor at hturns
  have hpart {i k : ℤ} {c : Float} (hc : fits i c = true) (hk : 2 + i ≤ k ∧ IsBound k) :
      Within k (factor * c) := hturns.mul (within_of_fits hc) hk
  have hfirst : Within 3 (factor * 1.57079632673412561417e+00) :=
    hpart (i := 1) (by decide +kernel) (by decide)
  have hsecond : Within (-31) (factor * 6.07710050650619224932e-11) :=
    hpart (i := -33) (by decide +kernel) (by decide)
  have hsecond' : Within (-31) (factor * 6.07710050630396597660e-11) :=
    hpart (i := -33) (by decide +kernel) (by decide)
  have hthird : Within (-66) (factor * 2.02226624879595063154e-21) :=
    hpart (i := -68) (by decide +kernel) (by decide)
  have hthird' : Within (-66) (factor * 2.02226624871116645580e-21) :=
    hpart (i := -68) (by decide +kernel) (by decide)
  have hfourth : Within (-101) (factor * 8.47842766036889956997e-32) :=
    hpart (i := -103) (by decide +kernel) (by decide)
  have hr : (x - factor * 1.57079632673412561417e+00).isFinite = true ∧
      |value (x - factor * 1.57079632673412561417e+00)| ≤ 25 := by
    have hdiff : |value x - value (factor * 1.57079632673412561417e+00)| ≤ 24 := by
      have hpair := (abs_sub _ _).trans (add_le_add hx.abs_le hfirst.abs_le)
      norm_num at hpair
      exact hpair
    have hrounded := rounded_sub hx.isFinite hfirst.isFinite (k := 5) (by decide)
      (hdiff.trans (by norm_num))
    have hnear := hrounded.abs_sub_le 5 (by decide) (hdiff.trans (by norm_num))
    refine ⟨hrounded.isFinite, ?_⟩
    norm_num [abs_le] at hdiff hnear ⊢
    constructor <;> linarith
  generalize x - factor * 1.57079632673412561417e+00 = r at hr
  obtain ⟨hr, hvalue⟩ := hr
  split
  · exact less_of_lost hr hvalue (by norm_num) hsecond (by decide)
  obtain ⟨hr', hvalue', hlost'⟩ := lost_within hr hvalue (by norm_num) hsecond' (by decide)
  have hpart' := hthird.sub hlost' (by decide : max (-66) (-31 + 2) < -28 ∧ IsBound (-28))
  split
  · exact less_of_lost hr' hvalue' (by norm_num) hpart' (by decide)
  · obtain ⟨hr'', hvalue'', hlost''⟩ := lost_within hr' hvalue' (by norm_num)
      (hthird'.mono (by decide : -66 ≤ -46)) (by decide)
    have hpart'' := hfourth.sub hlost'' (by decide : max (-101) (-46 + 2) < -43 ∧ IsBound (-43))
    exact less_of_lost hr'' hvalue'' (by norm_num) hpart'' (by decide)

/-- The series that the sine is worked out by, for an argument that has been reduced. -/
theorem within_sineSeries {z w : Float} (hz : Within 10 z) (hw : Within 20 w) :
    Within 10 (8.33333333332248946124e-03
      + z * (-1.98412698298579493134e-04 + z * 2.75573137070700676789e-06)
      + z * w * (-2.50507602534068634195e-08 + z * 1.58969099521155010221e-10)) := by
  have hthird : Within (-8) (z * 2.75573137070700676789e-06) :=
    hz.mul (within_of_fits (k := -18) (by decide +kernel)) (by decide)
  have hsecond : Within (-7) (-1.98412698298579493134e-04 + z * 2.75573137070700676789e-06) :=
    (within_of_fits (k := -12) (by decide +kernel)).add hthird (by decide)
  have hfirst : Within 3 (z * (-1.98412698298579493134e-04 + z * 2.75573137070700676789e-06)) :=
    hz.mul hsecond (by decide)
  have hlow : Within 4 (8.33333333332248946124e-03
      + z * (-1.98412698298579493134e-04 + z * 2.75573137070700676789e-06)) :=
    (within_of_fits (k := -6) (by decide +kernel)).add hfirst (by decide)
  have hfifth : Within (-22) (z * 1.58969099521155010221e-10) :=
    hz.mul (within_of_fits (k := -32) (by decide +kernel)) (by decide)
  have hfourth : Within (-21) (-2.50507602534068634195e-08 + z * 1.58969099521155010221e-10) :=
    (within_of_fits (k := -25) (by decide +kernel)).add hfifth (by decide)
  have hpower : Within 30 (z * w) := hz.mul hw (by decide)
  have hhigh : Within 9 (z * w * (-2.50507602534068634195e-08 + z * 1.58969099521155010221e-10)) :=
    hpower.mul hfourth (by decide)
  exact hlow.add hhigh (by decide)

section Core

variable (hx : Within 5 x)

include hx

theorem within_square : Within 10 (x * x) :=
  hx.mul hx (by decide)

theorem within_fourth_power : Within 20 (x * x * (x * x)) :=
  (within_square hx).mul (within_square hx) (by decide)

theorem within_cube : Within 15 (x * x * x) :=
  (within_square hx).mul hx (by decide)

theorem within_sineSmall : Within 40 (sineSmall x) := by
  have hseries := within_sineSeries (within_square hx) (within_fourth_power hx)
  have hproduct : Within 20 _ := (within_square hx).mul hseries (by decide)
  have hfactor : Within 21 (-1.66666666666666324348e-01 + _) :=
    (within_of_fits (k := -2) (by decide +kernel)).add hproduct (by decide)
  have hless : Within 36 _ := (within_cube hx).mul hfactor (by decide)
  exact hx.add hless (by decide)

theorem within_sineCore (hrest : Within 0 rest) : Within 40 (sineCore x rest) := by
  have hseries := within_sineSeries (within_square hx) (within_fourth_power hx)
  have hproduct : Within 25 _ := (within_cube hx).mul hseries (by decide)
  have hhalf : Within 0 (0.5 * rest) :=
    (within_of_fits (k := 0) (by decide +kernel)).mul hrest (by decide)
  have hdifference : Within 26 _ := hhalf.sub hproduct (by decide)
  have hscaled : Within 36 _ := (within_square hx).mul hdifference (by decide)
  have hthird : Within 13 (x * x * x * -1.66666666666666324348e-01) :=
    (within_cube hx).mul (within_of_fits (k := -2) (by decide +kernel)) (by decide)
  have hcorrected : Within 37 _ := hscaled.sub hrest (by decide)
  have hless : Within 38 _ := hcorrected.sub hthird (by decide)
  exact hx.sub hless (by decide)

theorem within_cosineCore (hrest : Within 0 rest) : Within 40 (cosineCore x rest) := by
  have hz := within_square hx
  have hthird : Within (-5) (x * x * 2.48015872894767294178e-05) :=
    hz.mul (within_of_fits (k := -15) (by decide +kernel)) (by decide)
  have hsecond : Within (-4) (-1.38888888888741095749e-03 + _) :=
    (within_of_fits (k := -9) (by decide +kernel)).add hthird (by decide)
  have hinner : Within 6 _ := hz.mul hsecond (by decide)
  have hfirst : Within 7 (4.16666666666666019037e-02 + _) :=
    (within_of_fits (k := -4) (by decide +kernel)).add hinner (by decide)
  have hlow : Within 17 _ := hz.mul hfirst (by decide)
  have hsixth : Within (-26) (x * x * -1.13596475577881948265e-11) :=
    hz.mul (within_of_fits (k := -36) (by decide +kernel)) (by decide)
  have hfifth : Within (-25) (2.08757232129817482790e-09 + _) :=
    (within_of_fits (k := -28) (by decide +kernel)).add hsixth (by decide)
  have hinner' : Within (-15) _ := hz.mul hfifth (by decide)
  have hfourth : Within (-14) (-2.75573143513906633035e-07 + _) :=
    (within_of_fits (k := -21) (by decide +kernel)).add hinner' (by decide)
  have hpower : Within 40 _ := (within_fourth_power hx).mul (within_fourth_power hx) (by decide)
  have hhigh : Within 26 _ := hpower.mul hfourth (by decide)
  have hseries : Within 27 _ := hlow.add hhigh (by decide)
  have hone : Within 0 1.0 := ⟨rfl, by decide +kernel⟩
  have hhalf : Within 10 (0.5 * (x * x)) :=
    (within_of_fits (k := 0) (by decide +kernel)).mul hz (by decide)
  have hless : Within 11 _ := hone.sub hhalf (by decide)
  have hlost : Within 12 _ := hone.sub hless (by decide)
  have hlost' : Within 13 _ := hlost.sub hhalf (by decide)
  have hproduct : Within 37 _ := hz.mul hseries (by decide)
  have hcross : Within 5 _ := hx.mul hrest (by decide)
  have hlast : Within 38 _ := hproduct.sub hcross (by decide)
  have hsum : Within 39 _ := hlost'.add hlast (by decide)
  exact hless.add hsum (by decide)

end Core

/-- **Sines** of directions are finite. The bound is generous, and any bound will do for what
follows. -/
theorem within_sine (hx : Within 4 x) : Within 40 (sine x) := by
  rw [sine, hx.isFinite]
  simp only [Bool.not_true, Bool.false_eq_true, if_false]
  split
  · exact hx.mono (by decide)
  split
  · exact within_sineSmall (hx.mono (by decide))
  · obtain ⟨hy, hrest⟩ := less_lessQuarterTurns hx
    split
    · exact within_cosineCore hy hrest
    · exact (within_cosineCore hy hrest).neg
    · exact (within_sineCore hy hrest).neg

/-- **Cosines** of directions are finite as well, with the same generous bound. -/
theorem within_cosine (hx : Within 4 x) : Within 40 (cosine x) := by
  rw [cosine, hx.isFinite]
  simp only [Bool.not_true, Bool.false_eq_true, if_false]
  split
  · exact within_of_fits (by decide +kernel)
  split
  · exact within_cosineCore (hx.mono (by decide)) (within_of_fits (by decide +kernel))
  · obtain ⟨hy, hrest⟩ := less_lessQuarterTurns hx
    split
    · exact (within_sineCore hy hrest).neg
    · exact within_sineCore hy hrest
    · exact (within_cosineCore hy hrest).neg

end Compander.Elementary
