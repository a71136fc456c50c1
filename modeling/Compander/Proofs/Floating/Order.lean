import Compander.Proofs.Floating.Single

/-!
# The order of singles

Singles that are numbers stand in a line: from minus infinity over the negative numbers, zero
and the positive numbers to infinity. `Single.rank` gives each its place, and the comparisons
of singles are those of the places:

* `Single.lt_iff_rank_lt` — a number is below another if its place is;
* `Single.le_trans`, `Single.lt_of_le_of_lt` — so the order is transitive.

What is not a number has no place, and every comparison with it fails; so `¬x < y` does not say
that `y` is at most `x`, and the search of a curve, which goes by such a test, has to be followed
without turning it around. The place is three numbers in the order of a dictionary, and both
zeros have the same one.
-/

namespace Compander.Single

open Float.Model (UnpackedFloat)
open Float.Model.UnpackedFloat

variable {x y z : Float32}

/-- The place of a number among all numbers. Finite numbers of one sign are placed by their
exponents first. -/
def rank : UnpackedFloat → ℤ ×ₗ ℤ ×ₗ ℤ
  | .notANumber => toLex (0, toLex (0, 0))
  | .infinity .negative => toLex (-2, toLex (0, 0))
  | .finite .negative m e _ => toLex (-1, toLex (-e, -m))
  | .zero _ => toLex (0, toLex (0, 0))
  | .finite .positive m e _ => toLex (1, toLex (e, m))
  | .infinity .positive => toLex (2, toLex (0, 0))

/-- Finite numbers are below one another by exponents first, and by digits among equals. -/
theorem compare_finite_lt_iff (m m' : Nat) (e e' : Int) :
    (compare e e').then (compare m m') = .lt ↔ e < e' ∨ e = e' ∧ m < m' := by
  rw [Ordering.then_eq_lt, compare_lt_iff_lt, compare_eq_iff_eq, compare_lt_iff_lt]

theorem compare_finite_gt_iff (m m' : Nat) (e e' : Int) :
    (compare e e').then (compare m m') = .gt ↔ e' < e ∨ e = e' ∧ m' < m := by
  rw [Ordering.then_eq_gt, compare_gt_iff_gt, compare_eq_iff_eq, compare_gt_iff_gt]

/-- Numbers compare as their places do; the cases are the kinds of the two, with a sign for
each. -/
theorem compare_eq_lt_iff {a b : UnpackedFloat} (ha : a.isNaN = false) (hb : b.isNaN = false) :
    a.compare b = some .lt ↔ rank a < rank b := by
  cases a with
  | notANumber => cases ha
  | infinity s | zero s =>
    cases b with
    | notANumber => cases hb
    | infinity t | zero t | finite t =>
      cases s <;> cases t <;> simp [UnpackedFloat.compare, rank, Prod.Lex.toLex_lt_toLex] <;> decide
  | finite s m e =>
    cases b with
    | notANumber => cases hb
    | infinity t | zero t =>
      cases s <;> cases t <;> simp [UnpackedFloat.compare, rank, Prod.Lex.toLex_lt_toLex]
    | finite t m' e' =>
      cases s <;> cases t <;>
        simp [UnpackedFloat.compare, rank, Prod.Lex.toLex_lt_toLex, compare_finite_lt_iff,
          compare_finite_gt_iff]

theorem lt_iff_rank_lt (hx : x.isNaN = false) (hy : y.isNaN = false) :
    x < y ↔ rank (kind x) < rank (kind y) := by
  rw [lt_iff]
  exact compare_eq_lt_iff hx hy

/-- What is at most another is not above it, since both are then numbers. -/
theorem not_lt_of_le (h : x ≤ y) : ¬y < x := by
  obtain ⟨order, horder, hle⟩ := le_iff.mp h
  intro hlt
  rw [lt_iff, compare_swap, horder] at hlt
  cases order with
  | lt | eq => cases hlt
  | gt => cases hle

theorem le_iff_rank_le (hx : x.isNaN = false) (hy : y.isNaN = false) :
    x ≤ y ↔ rank (kind x) ≤ rank (kind y) := by
  rw [← not_lt, ← lt_iff_rank_lt hy hx]
  exact ⟨not_lt_of_le, le_of_not_lt hy hx⟩

theorem le_trans (hxy : x ≤ y) (hyz : y ≤ z) : x ≤ z := by
  obtain ⟨hx, hy⟩ := isNaN_of_le hxy
  obtain ⟨-, hz⟩ := isNaN_of_le hyz
  rw [le_iff_rank_le hx hy] at hxy
  rw [le_iff_rank_le hy hz] at hyz
  rw [le_iff_rank_le hx hz]
  exact hxy.trans hyz

theorem lt_of_le_of_lt (hxy : x ≤ y) (hyz : y < z) : x < z := by
  obtain ⟨hx, hy⟩ := isNaN_of_le hxy
  obtain ⟨-, hz⟩ := isNaN_of_lt hyz
  rw [le_iff_rank_le hx hy] at hxy
  rw [lt_iff_rank_lt hy hz] at hyz
  rw [lt_iff_rank_lt hx hz]
  exact hxy.trans_lt hyz

end Compander.Single
