import Compander.Proofs.Floating.Values
import Compander.Proofs.Transfer.Legs

/-!
# Two readings of a curve

A curve is run on samples in linear levels, and shown to a user in decibels. The two readings test
for the floor on different scales, look the piece up apart from each other and evaluate it apart.
In exact arithmetic both go by the gain in nepers, and so they agree:

* `Decibel.toNepers_logb`, `Decibel.ofNepers_log` — decibels, nepers and amplitudes;
* `Transfer.gain_eq_exp_nepers` — what is run on samples, by way of the gain in nepers;
* `Transfer.decibels_gain_ofPieces` — so the readings agree, whatever the pieces are;
* `Transfer.exact` — a curve in singles as a curve of real numbers;
* `Transfer.decibels_gain_eq` — both readings of a drawn curve, exact or in singles.

Silence has no level in decibels and is left out. Below the floor both readings give the gain of
the floor, and the amplitude at which it begins is the exponential of its level, so that no level
is on one side of it for a sample and on the other for a user.
-/

namespace Compander

/-! ## Decibels and amplitudes -/

namespace Decibel

/-- The level of an amplitude in decibels is its logarithm in nepers, and twenty times the one
to base ten. -/
theorem ofNepers_log (v : ℝ) : (ofNepers (Real.log v) : ℝ) = 20 * Real.logb 10 v := by
  have hunit : (inNepers : ℝ) = Real.log 10 / 20 := by
    rw [inNepers]
    norm_num
    rfl
  rw [ofNepers, hunit, Real.logb]
  ring

theorem toNepers_logb (v : ℝ) : (toNepers (20 * Real.logb 10 v) : ℝ) = Real.log v := by
  rw [← ofNepers_log, toNepers, ofNepers, div_mul_cancel₀ _ inNepers_pos.ne']

end Decibel

/-- A piece in singles, with the numbers that they are. -/
noncomputable def Piece.exact (p : Piece Float32) : Piece ℝ :=
  ⟨Single.value p.x, Single.value p.y, Single.value p.a, Single.value p.b⟩

namespace Transfer

variable {v : ℝ}

/-! ## Reading on samples -/

/-- **On samples** a curve of some pieces gives the amplitude of the gain in nepers. The floor
begins at the amplitude of its level, so it is the same floor on both scales. -/
theorem gain_eq_exp_nepers (pieces : List (Piece ℝ)) (hv : 0 < v) :
    (ofPieces (W := ℝ) pieces : Transfer ℝ).gain v =
      Real.exp ((ofPieces (W := ℝ) pieces : Transfer ℝ).nepers (Real.log v)) := by
  have hpos : ¬v ≤ 0.0 := by
    rw [zero_literal]
    exact hv.not_ge
  have hfloor : v < (ofPieces (W := ℝ) pieces : Transfer ℝ).leastInput ↔
      Real.log v < (ofPieces (W := ℝ) pieces : Transfer ℝ).floor.x :=
    (Real.log_lt_iff_lt_exp hv).symm
  rw [gain, nepers]
  by_cases hbelow : Real.log v < (ofPieces (W := ℝ) pieces : Transfer ℝ).floor.x
  · rw [if_pos hbelow, if_pos (.inl (hfloor.mpr hbelow))]
    rfl
  · rw [if_neg hbelow, if_neg (not_or.mpr ⟨fun h => hbelow (hfloor.mp h), hpos⟩)]
    rfl

/-! ## Both readings -/

/-- **The readings agree** on a curve of some pieces, whatever order they are in: both look up the
piece for the same level in nepers. -/
theorem decibels_gain_ofPieces (pieces : List (Piece ℝ)) (hv : 0 < v) :
    20 * Real.logb 10 ((ofPieces (W := ℝ) pieces : Transfer ℝ).gain v) =
      (ofPieces (W := ℝ) pieces : Transfer ℝ).gainDecibels (20 * Real.logb 10 v) := by
  rw [gain_eq_exp_nepers pieces hv, ← Decibel.ofNepers_log, Real.log_exp, gainDecibels_eq,
    Decibel.toNepers_logb]
  rfl

/-- A curve in singles as a curve of real numbers: the numbers of its pieces, and the amplitudes
of its floor from these. -/
noncomputable def exact (s : Transfer Float32) : Transfer ℝ :=
  ofPieces (W := ℝ) (s.pieces.toList.map Piece.exact)

/-- **One curve in two readings.** For every level above silence the gain that is run on samples
is the gain that is shown, with nothing rounded. On a curve drawn exactly, whose pieces always
begin in order, both are read by following its pieces: below the floor, at the beginning of a
piece, between two of them and beyond the last. On a curve drawn in singles they agree as well,
if its numbers are taken for what they are. -/
theorem decibels_gain_eq [Memory] (hv : 0 < v) :
    (∀ (points : List (Point ℝ)) (knee gain : ℝ) (t : Transfer ℝ),
      draw points knee gain = .ok t →
        20 * Real.logb 10 (t.gain v) = t.gainDecibels (20 * Real.logb 10 v) ∧
          ∃ tail first rest, t.pieces = (tail :: first :: rest).toArray ∧
            (tail :: first :: rest).Pairwise (fun p q => p.x ≤ q.x) ∧
            t.gain v = Real.exp (first.trace rest (Real.log v))) ∧
    ∀ s : Transfer Float32,
      20 * Real.logb 10 (s.exact.gain v) = s.exact.gainDecibels (20 * Real.logb 10 v) := by
  refine ⟨fun points knee gain t h => ?_, fun s => decibels_gain_ofPieces _ hv⟩
  have hordered := inOrder_of_draw h
  obtain ⟨tail, k, ks, first, rest, -, -, ht, hfloor⟩ := exists_pieces_eq h
  have hfollow := nepers_eq_trace ht hfloor hordered (Real.log v)
  rw [InOrder, ht] at hordered
  obtain ⟨-, -, -, -, rfl⟩ := draw_eq_ok_iff.mp h
  refine ⟨decibels_gain_ofPieces _ hv, _, first, rest, ht, hordered, ?_⟩
  rw [gain_eq_exp_nepers _ hv, hfollow]

/-- At half of full scale, on a curve that is steep below: both readings agree there. -/
theorem decibels_gain_eq_at_half :
    (0 : ℝ) < 1 / 2 ∧
      ∃ t : Transfer ℝ, draw [(⟨-70, -70⟩ : Point ℝ), ⟨-60, -20⟩] 1 0 = .ok t ∧
        20 * Real.logb 10 (t.gain (1 / 2)) = t.gainDecibels (20 * Real.logb 10 (1 / 2)) := by
  have hordered : [(⟨-70, -70⟩ : Point ℝ), ⟨-60, -20⟩].Pairwise fun p q => p.input ≤ q.input := by
    norm_num
  obtain ⟨t, ht⟩ := exists_draw_eq (List.cons_ne_nil _ _) one_pos hordered 0
    (.of_length rfl rfl)
  obtain ⟨hdrawn, -⟩ := decibels_gain_eq (v := 1 / 2) one_half_pos
  exact ⟨one_half_pos, t, ht, (hdrawn _ _ _ t ht).1⟩

end Transfer

end Compander
