import Compander.Proofs.Floating.Single

/-!
# Limits of doubles

A double between two finite numbers is finite, and one above a positive number is positive,
so a double within limits is a number as good as the limits:

* `Double.lt_iff`, `Double.le_iff` — the comparisons of doubles are those of the numbers
  behind their bits;
* `Double.isFinite_of_le_of_le` — what lies between finite numbers is finite;
* `Double.pos_of_le` — what is at least a positive number is positive.

The checks of a knee and a gain are comparisons with two limits. Written so that a number that is
none fails them, they keep out infinities as well, and this is where that is proved.
-/

namespace Compander.Double

open Float.Model (UnpackedFloat)
open Float.Model.UnpackedFloat

variable {x low high : Float}

/-- The number behind the bits of a double. -/
def kind (x : Float) : UnpackedFloat :=
  x.toModel.unpack

theorem lt_iff : x < low ↔ (kind x).compare (kind low) = some .lt := by
  change x.lt low = true ↔ _
  rw [Float.lt, decide_eq_true_iff]
  change ((kind x).compare (kind low) == some .lt) = true ↔ _
  exact beq_iff_eq

theorem le_iff :
    x ≤ low ↔ ∃ order, (kind x).compare (kind low) = some order ∧ order.isLE = true := by
  change x.le low = true ↔ _
  rw [Float.le, decide_eq_true_iff]
  change ((kind x).compare (kind low)).any (·.isLE) = true ↔ _
  exact Option.any_eq_true ..

/-- What lies between finite numbers is finite: it is a number, since it was compared, and no
infinity lies between them. -/
theorem isFinite_of_le_of_le (hlow : low.isFinite = true) (hhigh : high.isFinite = true)
    (h : low ≤ x) (h' : x ≤ high) : x.isFinite = true := by
  obtain ⟨below, hbelow, hbelowLE⟩ := le_iff.mp h
  obtain ⟨above, habove, haboveLE⟩ := le_iff.mp h'
  change (kind low).isFinite = true at hlow
  change (kind high).isFinite = true at hhigh
  change (kind x).isFinite = true
  cases hkind : kind x with
  | zero | finite => rfl
  | notANumber =>
    -- nothing is at most what is not a number, and the other way around
    rw [hkind] at habove
    cases habove
  | infinity s =>
    rw [hkind] at hbelow habove
    cases s with
    | negative =>
      -- no finite number is at most minus infinity
      cases hl : kind low with
      | notANumber | infinity =>
        rw [hl] at hlow
        cases hlow
      | zero t | finite t =>
        rw [hl] at hbelow
        cases t <;> cases hbelow <;> cases hbelowLE
    | positive =>
      cases hh : kind high with
      | notANumber | infinity =>
        rw [hh] at hhigh
        cases hhigh
      | zero t | finite t =>
        rw [hh] at habove
        cases t <;> cases habove <;> cases haboveLE

/-- What is at least a positive number is positive, and in particular a number. -/
theorem pos_of_le (hlow : 0.0 < low) (h : low ≤ x) : 0.0 < x := by
  obtain ⟨order, horder, hle⟩ := le_iff.mp h
  rw [lt_iff] at hlow ⊢
  change (UnpackedFloat.zero .positive).compare (kind low) = some .lt at hlow
  change (UnpackedFloat.zero .positive).compare (kind x) = some .lt
  cases hl : kind low with
  | notANumber | zero =>
    rw [hl] at hlow
    cases hlow
  | infinity s | finite s =>
    rw [hl] at hlow horder
    cases s with
    | negative => cases hlow
    | positive =>
      -- only positive numbers are above a positive one
      cases hx : kind x with
      | notANumber =>
        rw [hx] at horder
        cases horder
      | zero t =>
        rw [hx] at horder
        cases horder
        cases hle
      | infinity t | finite t =>
        rw [hx] at horder
        cases t with
        | positive => rfl
        | negative =>
          cases horder
          cases hle

end Compander.Double
