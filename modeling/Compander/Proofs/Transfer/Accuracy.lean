import Compander.Proofs.Transfer.Interpolation
import Compander.Proofs.Transfer.Legs

/-!
# The curve and what was asked for

Farther from every knot than the knee a curve should have the gain that its points ask for, on
the line between neighbouring knots. The rounding keeps to that, and the only other thing in
the way is the merging of knots:

* `Corner.follow_eq_interpolate` — beyond the radius from all corners the pieces run along the
  legs;
* `Corner.trace_of_away`, `Transfer.gainDecibels_of_away` — so the gain of a curve is that along
  the knots merging has kept;
* `Transfer.exists_gainDecibels_of_below` — below the lowest of them it is constant, and off by no
  more than the first leg rises;
* `Transfer.gainDecibels_near` — how near that is to what was asked for;
* `Transfer.gainDecibels_not_near_at_short_tail` — a lowest point that merging takes away, because
  the tail below it is too short to show the bend;
* `Transfer.gainDecibels_not_near_at_bump` — knots so close to each other that merging takes a
  bump away.
-/

namespace Compander

/-! ## Away from the corners -/

/-- A level not before the entry of a corner, but away from it, lies beyond the exit. -/
theorem Corner.Spans.exit_lt_of_away {radius w₁ w₂ l : ℝ} {previous corner next : Knot ℝ}
    (h : Spans radius previous corner next w₁ w₂) (haway : radius < |l - corner.x|)
    (hl : (round radius previous corner next).entry.x ≤ l) :
    (round radius previous corner next).exit.x < l := by
  have hwidth₁ := h.width₁
  have hwidth₂ := h.width₂
  rw [h.entry_eq] at hl
  rw [h.exit_eq]
  dsimp only at hl ⊢
  rcases lt_abs.mp haway with habove | hbelow
  · linarith
  · linarith

/-- Beyond the radius from all corners the pieces run along the legs, which is where the line
between two knots runs. -/
theorem Corner.follow_eq_interpolate {radius l : ℝ} {p previous k : Knot ℝ} {ks : List (Knot ℝ)}
    (hradius : 0 < radius) (honLeg : Knot.OnLeg p k previous)
    (h : (k :: ks).Pairwise fun p q => p.x < q.x) (haway : ∀ q ∈ k :: ks, radius < |l - q.x|)
    {first : Piece ℝ} {rest : List (Piece ℝ)}
    (hpieces : (pieces radius previous (k :: ks) : List (Piece ℝ)) = first :: rest)
    (hl : first.x ≤ l) : first.follow rest l = Knot.interpolate (k :: ks) l := by
  refine legs_induction hradius (P := fun _ previous ks => (∀ q ∈ ks, radius < |l - q.x|) →
    ∀ (first : Piece ℝ) (rest : List (Piece ℝ)),
      (pieces radius previous ks : List (Piece ℝ)) = first :: rest → first.x ≤ l →
        first.follow rest l = Knot.interpolate ks l) ?_ ?_ honLeg h haway first rest hpieces hl
  · intro p previous last _ _ first rest hpieces _
    rw [pieces_singleton, List.cons.injEq] at hpieces
    obtain ⟨rfl, rfl⟩ := hpieces
    rw [Piece.follow_nil, Piece.gain_level, Knot.interpolate_singleton]
  · intro p previous corner next rest w₁ w₂ _ hspans hordered ih haway first after hpieces hl
    rw [pieces_cons_cons, List.cons.injEq] at hpieces
    obtain ⟨rfl, rfl⟩ := hpieces
    obtain ⟨hnext, hrest⟩ := List.pairwise_cons.mp hordered
    obtain ⟨hcorner, hafter⟩ := List.forall_mem_cons.mp haway
    obtain ⟨first, after, hpieces, -, hle, hwidth, -⟩ :=
      exists_first hradius hspans.onLeg_exit hrest
    have hexit := hspans.exit_lt_of_away hcorner hl
    have hcornerExit := hspans.onLeg_exit.le
    rw [hpieces, Piece.follow_of_lt hexit]
    rcases le_or_gt l first.x with hleg | hlt
    · rw [Piece.follow_of_le hleg, hspans.legPiece_gain,
        Knot.interpolate_of_mem (hcornerExit.trans hexit.le) (hleg.trans hle),
        Knot.line_eq_slope (hnext next List.mem_cons_self)]
    · have hnextAway : next.x ≤ l := by
        rcases lt_abs.mp (hafter next List.mem_cons_self) with habove | hbelow
        · linarith
        · linarith
      rw [Piece.follow_of_lt hlt,
        Knot.interpolate_cons_cons (hnext next List.mem_cons_self) hnextAway]
      exact ih hafter first after hpieces hlt.le

/-- Between two levels of a leg the gain changes by no more than over the leg. -/
theorem Knot.abs_slope_mul_le {p q : Knot ℝ} {x : ℝ} (hpq : p.x < q.x) (hx : |x| ≤ q.x - p.x) :
    |p.slope q * x| ≤ |q.y - p.y| := by
  rw [← slope_mul hpq, abs_mul, abs_mul, abs_of_pos (sub_pos.mpr hpq)]
  exact mul_le_mul_of_nonneg_left hx (abs_nonneg _)

/-- No level of the first leg has a gain that differs from the one asked for at a lower level by
more than the leg rises. -/
theorem Knot.abs_line_sub_interpolate_le {tail k : Knot ℝ} {x l : ℝ} (htail : tail.x < k.x)
    (hx : tail.x ≤ x) (hxk : x ≤ k.x) (hl : l < x) (ks : List (Knot ℝ)) :
    |tail.line k x - interpolate (tail :: k :: ks) l| ≤ |k.y - tail.y| := by
  rcases le_total l tail.x with hlt | htl
  · have hdifference : tail.line k x - tail.y = tail.slope k * (x - tail.x) := by
      rw [line_eq_slope htail, add_sub_cancel_left]
    rw [interpolate_of_le hlt, hdifference]
    refine abs_slope_mul_le htail ?_
    rw [abs_of_nonneg (sub_nonneg.mpr hx)]
    linarith
  · have hdifference : tail.line k x - tail.line k l = tail.slope k * (x - l) := by
      rw [line_eq_slope htail, line_eq_slope htail]
      ring
    rw [interpolate_of_mem htl (hl.le.trans hxk), hdifference]
    refine abs_slope_mul_le htail ?_
    rw [abs_of_pos (sub_pos.mpr hl)]
    linarith

/-- Away from the corners, and above the lowest of them, the gain is that along the knots. -/
theorem Corner.trace_of_away {radius l : ℝ} {tail k : Knot ℝ} {ks : List (Knot ℝ)}
    (hradius : 0 < radius) (h : (tail :: k :: ks).Pairwise fun p q => p.x < q.x)
    (haway : ∀ q ∈ k :: ks, radius < |l - q.x|) {first : Piece ℝ} {rest : List (Piece ℝ)}
    (hpieces : (pieces radius tail (k :: ks) : List (Piece ℝ)) = first :: rest)
    (habove : k.x < l) : first.trace rest l = Knot.interpolate (tail :: k :: ks) l := by
  obtain ⟨htail, hafter⟩ := List.pairwise_cons.mp h
  have hfirst : tail.x < k.x := htail k List.mem_cons_self
  have honLeg := Knot.onLeg_self hfirst
  obtain ⟨first', rest', hpieces', -, hbefore, -, -⟩ := exists_first hradius honLeg hafter
  rw [hpieces, List.cons.injEq] at hpieces'
  obtain ⟨rfl, rfl⟩ := hpieces'
  have hbegins : first.x ≤ l := hbefore.trans habove.le
  rw [Piece.trace, if_neg hbegins.not_gt,
    follow_eq_interpolate hradius honLeg hafter haway hpieces hbegins,
    Knot.interpolate_cons_cons hfirst habove.le]

/-! ## Drawn curves -/

namespace Transfer

variable {points : List (Point ℝ)} {knee gain d : ℝ} {t : Transfer ℝ} {tail k : Knot ℝ}
  {ks : List (Knot ℝ)}

/-- Below the lowest of the knots kept, the tail apart, the gain is constant: that of the first
leg at the level where its rounding begins, which is not farther than the knee from the knot. -/
theorem exists_gainDecibels_of_below [Memory] (h : draw points knee gain = .ok t)
    (hstrict : points.Pairwise fun p q => p.input < q.input)
    (hmerged : Knot.mergeStraight (Knot.ofPoints knee points) = tail :: k :: ks) :
    ∃ x, tail.x ≤ x ∧ k.x - knee ≤ x ∧ x ≤ k.x ∧
      ∀ d < x, t.gainDecibels d = tail.line k x + gain := by
  obtain ⟨-, hknee, -, -⟩ := draw_eq_ok_iff.mp h
  have hunit : (0 : ℝ) < Decibel.inNepers := Decibel.inNepers_pos
  obtain ⟨tail', k', ks', first, rest, hknots, hlevels, hpieces, -, -, hgain⟩ :=
    exists_follow h hstrict
  rw [knots, hmerged, List.map_cons, List.map_cons, List.cons.injEq, List.cons.injEq] at hknots
  obtain ⟨rfl, rfl, rfl⟩ := hknots
  obtain ⟨htail, hafter⟩ := List.pairwise_cons.mp hlevels
  have hfirst : (tail.toNepers gain).x < (k.toNepers gain).x := htail _ List.mem_cons_self
  obtain ⟨first', rest', hpieces', hbegun, hbefore, hwidth, hvalue⟩ :=
    Corner.exists_first (Decibel.toNepers_pos hknee) (Knot.onLeg_self hfirst) hafter
  rw [hpieces, List.cons.injEq] at hpieces'
  obtain ⟨rfl, rfl⟩ := hpieces'
  -- the level in decibels where the first piece begins
  obtain ⟨x, hx⟩ : ∃ x, Decibel.toNepers x = first.x :=
    ⟨first.x / Decibel.inNepers, div_mul_cancel₀ _ hunit.ne'⟩
  have hy : first.y = Decibel.toNepers (tail.line k x + gain) := by
    have hrise := Knot.slope_mul hfirst
    rw [← Knot.line_toNepers, Knot.line_eq_slope hfirst, hx, hvalue]
    linarith
  rw [← hx] at hbegun hbefore hwidth
  refine ⟨x, Decibel.toNepers_le_toNepers.mp hbegun, ?_, Decibel.toNepers_le_toNepers.mp hbefore,
    fun d hd => ?_⟩
  · have hknot : Decibel.toNepers (k.x - x) ≤ Decibel.toNepers knee := by
      rw [Decibel.toNepers, sub_mul]
      exact hwidth
    linarith [Decibel.toNepers_le_toNepers.mp hknot]
  · have hlt : Decibel.toNepers d < first.x := hx ▸ Decibel.toNepers_lt_toNepers.mpr hd
    rw [hgain, Piece.trace, if_pos hlt, hy, Decibel.toNepers, mul_div_cancel_right₀ _ hunit.ne']

/-- **Away from the knots kept** a curve has the gain along them. Below the lowest of them, the
tail apart, it has the gain of some level of the first leg. -/
theorem gainDecibels_of_away [Memory] (h : draw points knee gain = .ok t)
    (hstrict : points.Pairwise fun p q => p.input < q.input)
    (hmerged : Knot.mergeStraight (Knot.ofPoints knee points) = tail :: k :: ks)
    (haway : ∀ q ∈ k :: ks, knee < |d - q.x|) :
    (k.x < d → t.gainDecibels d = Knot.interpolate (tail :: k :: ks) d + gain) ∧
      (d < k.x → |t.gainDecibels d - (Knot.interpolate (tail :: k :: ks) d + gain)| ≤
        |k.y - tail.y|) := by
  obtain ⟨-, hknee, -, -⟩ := draw_eq_ok_iff.mp h
  have hunit : (0 : ℝ) < Decibel.inNepers := Decibel.inNepers_pos
  obtain ⟨tail', k', ks', first, rest, hknots, hlevels, hpieces, -, -, hgain⟩ :=
    exists_follow h hstrict
  rw [knots, hmerged, List.map_cons, List.map_cons, List.cons.injEq, List.cons.injEq] at hknots
  obtain ⟨rfl, rfl, rfl⟩ := hknots
  refine ⟨fun habove => ?_, fun hbelow => ?_⟩
  · have hlevelAway : ∀ q ∈ (k :: ks).map (Knot.toNepers gain),
        Decibel.toNepers knee < |Decibel.toNepers d - q.x| := by
      refine List.forall_mem_map.mpr fun q hq => ?_
      have hdistance : |Decibel.toNepers d - (q.toNepers gain).x| = Decibel.toNepers |d - q.x| :=
        Decibel.abs_toNepers_sub d q.x
      rw [hdistance, Decibel.toNepers_lt_toNepers]
      exact haway q hq
    have htrace := Corner.trace_of_away (Decibel.toNepers_pos hknee) hlevels hlevelAway hpieces
      (Decibel.toNepers_lt_toNepers.mpr habove)
    have hinterpolate := Knot.interpolate_map_toNepers (List.cons_ne_nil tail (k :: ks)) gain d
    rw [List.map_cons, List.map_cons] at hinterpolate
    rw [hgain, htrace, hinterpolate, Decibel.toNepers, mul_div_cancel_right₀ _ hunit.ne']
  · have hfirst : tail.x < k.x :=
      Decibel.toNepers_lt_toNepers.mp ((List.pairwise_cons.mp hlevels).1 _ List.mem_cons_self)
    obtain ⟨x, hbegun, hnear, hbefore, hflat⟩ := exists_gainDecibels_of_below h hstrict hmerged
    have hdistance := haway k List.mem_cons_self
    rw [abs_of_neg (sub_neg.mpr hbelow)] at hdistance
    have hdx : d < x := by linarith
    rw [hflat d hdx, add_sub_add_right_eq_sub]
    exact Knot.abs_line_sub_interpolate_le hfirst hbegun hbefore hdx ks

/-- **Near what was asked for.** Take a level farther than the knee from every knot that the
points ask for, unity gain at 0 dB among them. Let the knots that merging takes away near the
level lie at least `δ` below the next knot, and let the lowest knot that merging keeps besides
the tail, if it lies above the level, be within `ε` of the gain of the tail. Then the gain of the
curve is the interpolated gain of the knots up to the tolerance over `δ`, and up to `ε`. -/
theorem gainDecibels_near [Memory] {δ ε : ℝ} (h : draw points knee gain = .ok t)
    (hstrict : points.Pairwise fun p q => p.input < q.input)
    (haway : ∀ k ∈ Knot.asked points, knee < |d - k.x|) (hδ : 0 < δ)
    (hspaced : Knot.Spaced δ d (Knot.mergeStraight (Knot.ofPoints knee points))
      (Knot.asked points))
    (hε : 0 ≤ ε)
    (hlevel : ∀ tail k ks, Knot.mergeStraight (Knot.ofPoints knee points) = tail :: k :: ks →
      d < k.x → |k.y - tail.y| ≤ ε) :
    (∃ y, Knot.Interpolated (Knot.asked points) d y) ∧
      ∀ y, Knot.Interpolated (Knot.asked points) d y →
        |t.gainDecibels d - (gain + y)| ≤ 1e-6 / δ + ε := by
  obtain ⟨hpoints, hknee, -, -⟩ := draw_eq_ok_iff.mp h
  have hlevels := Knot.pairwise_withUnity .lt_levels (Knot.pairwise_atPoints hstrict)
  have hne : Knot.withUnity (Knot.atPoints points) ≠ [] :=
    Knot.withUnity_ne_nil fun hnil => hpoints (List.map_eq_nil_iff.mp hnil)
  refine ⟨⟨_, Knot.asked_eq points ▸ Knot.interpolated_interpolate hne hlevels d⟩, fun y hy => ?_⟩
  rw [Knot.asked_eq] at hy
  have hinterpolate := hy.interpolate_eq hlevels
  have hoff : ∀ k ∈ Knot.asked points, d ≠ k.x := by
    rintro k hk rfl
    have hdistance := haway k hk
    rw [sub_self, abs_zero] at hdistance
    exact hknee.not_gt hdistance
  have hmerging := Knot.abs_interpolate_mergeStraight_sub_le hpoints hknee hstrict hδ hoff hspaced
  obtain ⟨lowest, k, ks, -, hmerged⟩ := Knot.exists_mergeStraight_eq knee hpoints
  have hkept := Knot.mem_asked_of_kept hpoints hmerged
  obtain ⟨habove, hbelow⟩ :=
    gainDecibels_of_away h hstrict hmerged fun q hq => haway q (hkept q hq)
  rw [hmerged, hinterpolate] at hmerging
  have hgain : |t.gainDecibels d - (Knot.interpolate (⟨lowest.x - 2.0 * knee, lowest.y⟩ :: k :: ks)
      d + gain)| ≤ ε := by
    rcases lt_or_gt_of_ne (hoff k (hkept k List.mem_cons_self)) with hlt | hgt
    · exact (hbelow hlt).trans (hlevel _ k ks hmerged hlt)
    · rw [habove hgt, sub_self, abs_zero]
      exact hε
  have htriangle := abs_sub_le (t.gainDecibels d)
    (Knot.interpolate (⟨lowest.x - 2.0 * knee, lowest.y⟩ :: k :: ks) d + gain) (gain + y)
  rw [add_comm gain y, add_sub_add_right_eq_sub] at htriangle
  rw [add_comm gain y]
  linarith

/-- Three points on one line: merging takes the middle one away, 10 dB below the next. -/
theorem gainDecibels_near_at_straight :
    ∃ t : Transfer ℝ, draw [(⟨-60, -70⟩ : Point ℝ), ⟨-50, -55⟩, ⟨-40, -40⟩] 1 0 = .ok t ∧
      Knot.Interpolated (Knot.asked [⟨-60, -70⟩, ⟨-50, -55⟩, ⟨-40, -40⟩]) (-55) (-7.5) ∧
        |t.gainDecibels (-55 : ℝ) - (0 + -7.5)| ≤ 1e-6 / 10 + 0 := by
  have hstrict : [(⟨-60, -70⟩ : Point ℝ), ⟨-50, -55⟩, ⟨-40, -40⟩].Pairwise
      fun p q => p.input < q.input := by
    norm_num
  have hneg : ∀ p ∈ [(⟨-60, -70⟩ : Point ℝ), ⟨-50, -55⟩, ⟨-40, -40⟩], p.input < 0 := by
    norm_num
  have hasked : Knot.asked [(⟨-60, -70⟩ : Point ℝ), ⟨-50, -55⟩, ⟨-40, -40⟩] =
      {k | k ∈ [⟨-60, -10⟩, ⟨-50, -5⟩, ⟨-40, 0⟩, ⟨0, 0⟩]} := by
    rw [Knot.asked_of_neg hneg]
    norm_num [Knot.atPoints]
  have hmerged : Knot.mergeStraight (Knot.ofPoints 1 [(⟨-60, -70⟩ : Point ℝ), ⟨-50, -55⟩,
      ⟨-40, -40⟩]) = [⟨-62, -10⟩, ⟨-60, -10⟩, ⟨-40, 0⟩, ⟨0, 0⟩] := by
    rw [Knot.ofPoints_of_neg _ hneg]
    norm_num [Knot.atPoints, Knot.withTail, Knot.mergeStraight, Knot.mergeFrom,
      Knot.isStraight_iff]
  have hy : Knot.Interpolated (Knot.asked [⟨-60, -70⟩, ⟨-50, -55⟩, ⟨-40, -40⟩]) (-55) (-7.5) := by
    have hline : Knot.line ⟨-60, -10⟩ ⟨-50, -5⟩ (-55) = -7.5 := by
      norm_num [Knot.line]
    rw [hasked, ← hline]
    refine .between _ _ ?_ ?_ ?_ ?_ ?_ ?_
    all_goals norm_num
  obtain ⟨t, ht⟩ := exists_draw_eq (List.cons_ne_nil _ _) one_pos (hstrict.imp le_of_lt) 0
    (.of_length rfl rfl)
  refine ⟨t, ht, hy, (gainDecibels_near ht hstrict ?_ (by norm_num) ?_ le_rfl ?_).2 _ hy⟩
  · rw [hasked]
    norm_num [lt_abs]
  · -- the others are kept, and none of them separates the middle one from the level
    rw [hmerged, hasked]
    intro p hp hkept q hq hpq
    simp only [Set.mem_ofPred_eq, List.mem_cons, List.not_mem_nil, or_false] at hp hq hkept
    rcases hp with rfl | rfl | rfl | rfl
    · exact absurd Set.left_mem_uIcc (hkept _ (by simp))
    · rcases hq with rfl | rfl | rfl | rfl
      · norm_num at hpq
      · norm_num at hpq
      · norm_num
      · norm_num
    · exact absurd Set.left_mem_uIcc (hkept _ (by simp))
    · exact absurd Set.left_mem_uIcc (hkept _ (by simp))
  · rw [hmerged]
    intro tail k ks hknots hlt
    simp only [List.cons.injEq] at hknots
    obtain ⟨rfl, rfl, rfl⟩ := hknots
    norm_num at hlt

/-- The last of these conditions cannot be left out. With a knee of a billionth of a decibel the
tail is so short that merging takes the lowest point away next to it, though the curve bends by
10 dB there. Nothing is left then to hold the gain of the first leg, 7.5 dB at -50 dB. -/
theorem gainDecibels_not_near_at_short_tail :
    ∃ t : Transfer ℝ, draw [(⟨-60, -70⟩ : Point ℝ), ⟨-20, -20⟩] 1e-9 0 = .ok t ∧
      (∀ k ∈ Knot.asked [⟨-60, -70⟩, ⟨-20, -20⟩], (1e-9 : ℝ) < |-50 - k.x|) ∧
      Knot.Spaced 20 (-50) (Knot.mergeStraight (Knot.ofPoints 1e-9 [⟨-60, -70⟩, ⟨-20, -20⟩]))
        (Knot.asked [⟨-60, -70⟩, ⟨-20, -20⟩]) ∧
      Knot.Interpolated (Knot.asked [⟨-60, -70⟩, ⟨-20, -20⟩]) (-50) (-7.5) ∧
        7 < |t.gainDecibels (-50 : ℝ) - (0 + -7.5)| := by
  have hstrict : [(⟨-60, -70⟩ : Point ℝ), ⟨-20, -20⟩].Pairwise
      fun p q => p.input < q.input := by
    norm_num
  have hneg : ∀ p ∈ [(⟨-60, -70⟩ : Point ℝ), ⟨-20, -20⟩], p.input < 0 := by
    norm_num
  have hasked : Knot.asked [(⟨-60, -70⟩ : Point ℝ), ⟨-20, -20⟩] =
      {k | k ∈ [⟨-60, -10⟩, ⟨-20, 0⟩, ⟨0, 0⟩]} := by
    rw [Knot.asked_of_neg hneg]
    norm_num [Knot.atPoints]
  have hmerged : Knot.mergeStraight (Knot.ofPoints 1e-9 [(⟨-60, -70⟩ : Point ℝ), ⟨-20, -20⟩]) =
      [⟨-60.000000002, -10⟩, ⟨-20, 0⟩, ⟨0, 0⟩] := by
    rw [Knot.ofPoints_of_neg _ hneg]
    norm_num [Knot.atPoints, Knot.withTail, Knot.mergeStraight, Knot.mergeFrom,
      Knot.isStraight_iff]
  obtain ⟨t, ht⟩ := exists_draw_eq (List.cons_ne_nil _ _) (by norm_num : (0 : ℝ) < 1e-9)
    (hstrict.imp le_of_lt) 0 (.of_length rfl rfl)
  refine ⟨t, ht, ?_, ?_, ?_, ?_⟩
  · rw [hasked]
    norm_num [lt_abs]
  · have hdistance : ∀ p ∈ [(⟨-60, -10⟩ : Knot ℝ), ⟨-20, 0⟩, ⟨0, 0⟩],
        ∀ q ∈ [(⟨-60, -10⟩ : Knot ℝ), ⟨-20, 0⟩, ⟨0, 0⟩], p.x < q.x → 20 ≤ q.x - p.x := by
      norm_num
    rw [hasked]
    exact fun p hp _ => hdistance p hp
  · have hline : Knot.line ⟨-60, -10⟩ ⟨-20, 0⟩ (-50) = -7.5 := by
      norm_num [Knot.line]
    rw [hasked, ← hline]
    refine .between _ _ ?_ ?_ ?_ ?_ ?_ ?_
    all_goals norm_num
  · obtain ⟨x, -, hnear, -, hflat⟩ := exists_gainDecibels_of_below ht hstrict hmerged
    dsimp only at hnear
    have hgain : t.gainDecibels (-50 : ℝ) = Knot.line ⟨-60.000000002, -10⟩ ⟨-20, 0⟩ x + 0 :=
      hflat _ (by linarith)
    have hline : -0.1 ≤ Knot.line ⟨-60.000000002, -10⟩ ⟨-20, 0⟩ x := by
      norm_num [Knot.line]
      linarith
    rw [hgain, lt_abs]
    left
    linarith

/-- A bump of 0.024 dB on legs of 0.00002 dB: merging takes it away, since the area that it
encloses is small enough. -/
theorem gainDecibels_not_near_at_bump :
    ∃ t : Transfer ℝ,
      draw [(⟨-60, -60⟩ : Point ℝ), ⟨-40, -40⟩, ⟨-39.99998, -39.97598⟩, ⟨-39.99996, -39.99996⟩]
        1e-6 0 = .ok t ∧
        (∀ k ∈ Knot.asked [⟨-60, -60⟩, ⟨-40, -40⟩, ⟨-39.99998, -39.97598⟩,
          ⟨-39.99996, -39.99996⟩], (1e-6 : ℝ) < |-39.99997 - k.x|) ∧
        ∃ y, Knot.Interpolated (Knot.asked [⟨-60, -60⟩, ⟨-40, -40⟩, ⟨-39.99998, -39.97598⟩,
          ⟨-39.99996, -39.99996⟩]) (-39.99997) y ∧
          0.001 < |t.gainDecibels (-39.99997 : ℝ) - (0 + y)| := by
  have hstrict : [(⟨-60, -60⟩ : Point ℝ), ⟨-40, -40⟩, ⟨-39.99998, -39.97598⟩,
      ⟨-39.99996, -39.99996⟩].Pairwise fun p q => p.input < q.input := by
    norm_num
  have hneg : ∀ p ∈ [(⟨-60, -60⟩ : Point ℝ), ⟨-40, -40⟩, ⟨-39.99998, -39.97598⟩,
      ⟨-39.99996, -39.99996⟩], p.input < 0 := by
    norm_num
  have hasked : Knot.asked [(⟨-60, -60⟩ : Point ℝ), ⟨-40, -40⟩, ⟨-39.99998, -39.97598⟩,
      ⟨-39.99996, -39.99996⟩] =
        {k | k ∈ [⟨-60, 0⟩, ⟨-40, 0⟩, ⟨-39.99998, 0.024⟩, ⟨-39.99996, 0⟩, ⟨0, 0⟩]} := by
    rw [Knot.asked_of_neg hneg]
    norm_num [Knot.atPoints]
  have hmerged : Knot.mergeStraight (Knot.ofPoints 1e-6 [(⟨-60, -60⟩ : Point ℝ), ⟨-40, -40⟩,
      ⟨-39.99998, -39.97598⟩, ⟨-39.99996, -39.99996⟩]) =
        [⟨-60.000002, 0⟩, ⟨-40, 0⟩, ⟨0, 0⟩] := by
    rw [Knot.ofPoints_of_neg _ hneg]
    norm_num [Knot.atPoints, Knot.withTail, Knot.mergeStraight, Knot.mergeFrom,
      Knot.isStraight_iff]
  obtain ⟨t, ht⟩ := exists_draw_eq (List.cons_ne_nil _ _) (by norm_num : (0 : ℝ) < 1e-6)
    (hstrict.imp le_of_lt) 0 (.of_length rfl rfl)
  refine ⟨t, ht, ?_, Knot.line ⟨-39.99998, 0.024⟩ ⟨-39.99996, 0⟩ (-39.99997), ?_, ?_⟩
  · rw [hasked]
    norm_num [lt_abs]
  · rw [hasked]
    refine .between _ _ ?_ ?_ ?_ ?_ ?_ ?_
    all_goals norm_num
  · have hgain := (gainDecibels_of_away (d := -39.99997) ht hstrict hmerged
      (by norm_num [lt_abs])).1 (by norm_num)
    rw [hgain, Knot.interpolate_cons_cons (by norm_num) (by norm_num),
      Knot.interpolate_of_mem (by norm_num) (by norm_num)]
    norm_num [Knot.line, lt_abs]

end Transfer

end Compander
