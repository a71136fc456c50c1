import Compander.Proofs.Transfer.Continuity

/-!
# How far the output falls

A user who draws a transfer function that never falls expects louder input to come out no
quieter. The rounding spoils that a little: the parabola of a corner is not tangent to its legs,
and next to a much steeper leg it dips below its entry or rises above its exit. How much is
settled by the widths `w` and `v` that the corner takes of its legs and by the rises `A` and `B`
of the output over them:

* `Corner.rise` — the output above the entry along the parabola;
* `Corner.le_rise` — it falls at most by the twenty-fourth part of the radius below the entry;
* `Corner.rise_sub_le` — nor by more between any two levels of the corner;
* `NearlyRises` — a function that falls by so little, from a level on;
* `Transfer.outputDecibels_sub_le` — the output of a curve never falls by more than a tenth of
  its knee. An overshoot and the dip at the next corner together fall by a twelfth part at most.

The rise of a leg may be as large as one likes while its width is small, so no bound in terms of
slopes would do. What bounds the dip is that a corner takes no more of a leg than the radius, as
measured along the leg: a steep leg loses little width.
-/

namespace Compander

/-! ## Along a parabola -/

namespace Corner

variable {w v A B u u' R : ℝ}

/-- The output above the entry of a corner at a distance `u` from the entry. The corner takes a
width `w` of its first leg, over which the output rises by `A`, and a width `v` of its second,
over which it rises by `B`. -/
noncomputable def rise (w v A B u : ℝ) : ℝ :=
  (A + B) * u / (w + v) -
    3 * (w * B - v * A) / ((w + v) * (2 * w + v) * (w + 2 * v)) * u * (w + v - u)

theorem rise_zero (w v A B : ℝ) : rise w v A B 0 = 0 := by
  rw [rise]
  ring

theorem rise_all (hw : 0 < w) (hv : 0 < v) (A B : ℝ) : rise w v A B (w + v) = A + B := by
  have hwidth : w + v ≠ 0 := by positivity
  rw [rise, sub_self, mul_zero, sub_zero, mul_div_cancel_right₀ _ hwidth]

/-- Seen from the exit a corner is that of its legs in reverse, so an overshoot is a dip. -/
theorem rise_reverse (hw : 0 < w) (hv : 0 < v) (A B u : ℝ) :
    rise v w B A (w + v - u) = A + B - rise w v A B u := by
  have hwidth : w + v ≠ 0 := by positivity
  have hfirst : 2 * w + v ≠ 0 := by positivity
  have hsecond : w + 2 * v ≠ 0 := by positivity
  have hfirst' : v + 2 * w ≠ 0 := by positivity
  have hsecond' : 2 * v + w ≠ 0 := by positivity
  have hwidth' : v + w ≠ 0 := by positivity
  rw [rise, rise]
  field_simp
  ring

/-- The part of each leg in the rise, without denominators. The rise is linear in `A` and in
`B`, and each has a part of its own. -/
theorem rise_mul (hw : 0 < w) (hv : 0 < v) (A B u : ℝ) :
    rise w v A B u * ((w + v) * ((2 * w + v) * (w + 2 * v))) =
      A * u * ((2 * w + v) * (w + 2 * v) + 3 * v * (w + v - u)) +
        B * (u * (2 * v ^ 2 + 2 * w * v - w ^ 2 + 3 * w * u)) := by
  have hwidth : w + v ≠ 0 := by positivity
  have hfirst : 2 * w + v ≠ 0 := by positivity
  have hsecond : w + 2 * v ≠ 0 := by positivity
  rw [rise]
  field_simp
  ring

/-- The least value of the part of the second leg, cleared of denominators. The part of the
first leg is never negative. -/
theorem neg_cube_le (hw : 0 < w) (hv : 0 < v) (hu : 0 ≤ u) :
    -w ^ 3 ≤ 12 * (u * (2 * v ^ 2 + 2 * w * v - w ^ 2 + 3 * w * u)) := by
  rcases le_total (w ^ 2) (2 * v ^ 2 + 2 * w * v) with hwide | hnarrow
  · -- the second width is large enough for no dip at all
    have hpart := sub_nonneg.mpr hwide
    have hnonneg : 0 ≤ u * (2 * v ^ 2 + 2 * w * v - w ^ 2 + 3 * w * u) := by positivity
    have hcube : 0 < w ^ 3 := by positivity
    linarith
  · have hdepth : (w ^ 2 - 2 * v ^ 2 - 2 * w * v) ^ 2 ≤ (w ^ 2) ^ 2 := by
      have hnonneg : 0 ≤ 2 * v ^ 2 + 2 * w * v := by positivity
      exact pow_le_pow_left₀ (by linarith) (by linarith) 2
    have hvertex := sq_nonneg (w ^ 2 - 2 * v ^ 2 - 2 * w * v - 6 * w * u)
    refine le_of_mul_le_mul_left ?_ hw
    linarith

/-- **The dip.** Along the parabola of a corner the output falls below the entry by at most the
twenty-fourth part of the radius. -/
theorem le_rise (hw : 0 < w) (hv : 0 < v) (hA : 0 ≤ A) (hB : 0 ≤ B) (hwR : w ≤ R)
    (hBR : B ≤ v + R) (hu : 0 ≤ u) (huw : u ≤ w + v) : -(R / 24) ≤ rise w v A B u := by
  have hR : 0 < R := hw.trans_le hwR
  have hscale : 0 < (w + v) * ((2 * w + v) * (w + 2 * v)) := by positivity
  have hfirst : 0 ≤ A * u * ((2 * w + v) * (w + 2 * v) + 3 * v * (w + v - u)) := by
    have hrest := sub_nonneg.mpr huw
    positivity
  have hsecond : -(B * w ^ 3) ≤ 12 * (B * (u * (2 * v ^ 2 + 2 * w * v - w ^ 2 + 3 * w * u))) := by
    have hpart := mul_le_mul_of_nonneg_left (neg_cube_le hw hv hu) hB
    linarith
  -- the rise of the second leg over its own width, against the radius over both
  have hslope : B * w ≤ R * (w + v) := by
    have hown := mul_le_mul_of_nonneg_right hBR hw.le
    have hwide := mul_le_mul_of_nonneg_right hwR hv.le
    linarith
  have hcube : B * w ^ 3 ≤ R * (w + v) * w ^ 2 := by
    have hpart := mul_le_mul_of_nonneg_right hslope (sq_nonneg w)
    linarith
  have hwidths : R * (w + v) * (2 * w ^ 2) ≤ R * (w + v) * ((2 * w + v) * (w + 2 * v)) := by
    have hproduct : 2 * w ^ 2 ≤ (2 * w + v) * (w + 2 * v) := by
      have hmore : 0 ≤ 5 * (w * v) + 2 * v ^ 2 := by positivity
      linarith
    exact mul_le_mul_of_nonneg_left hproduct (by positivity)
  rw [← mul_le_mul_iff_left₀ hscale, rise_mul hw hv]
  linarith

/-- The overshoot is the dip of the legs in reverse, so it has the same bound. -/
theorem rise_le (hw : 0 < w) (hv : 0 < v) (hA : 0 ≤ A) (hB : 0 ≤ B) (hvR : v ≤ R)
    (hAR : A ≤ w + R) (hu : 0 ≤ u) (huw : u ≤ w + v) : rise w v A B u ≤ A + B + R / 24 := by
  have hdip := le_rise hv hw hB hA hvR hAR (u := w + v - u) (by linarith) (by linarith)
  rw [rise_reverse hw hv] at hdip
  linarith

/-- Between two levels of a corner the output changes by the chord and the bend. -/
theorem rise_sub (w v A B u u' : ℝ) :
    rise w v A B u - rise w v A B u' =
      (u' - u) * (3 * (w * B - v * A) / ((w + v) * (2 * w + v) * (w + 2 * v)) * (w + v - u - u') -
        (A + B) / (w + v)) := by
  rw [rise, rise]
  ring

/-- Along a parabola that bends up, the output falls nowhere by more than from the entry. -/
theorem rise_sub_le_of_bend (hbend : 0 ≤ w * B - v * A) (hw : 0 < w) (hv : 0 < v) (hu : 0 ≤ u)
    (huu : u ≤ u') : rise w v A B u - rise w v A B u' ≤ -rise w v A B (u' - u) := by
  have hentry := rise_sub w v A B 0 (u' - u)
  rw [rise_zero, zero_sub, sub_zero] at hentry
  rw [hentry, rise_sub]
  have hcoefficient : 0 ≤ 3 * (w * B - v * A) / ((w + v) * (2 * w + v) * (w + 2 * v)) := by
    positivity
  refine mul_le_mul_of_nonneg_left (sub_le_sub_right ?_ _) (sub_nonneg.mpr huu)
  exact mul_le_mul_of_nonneg_left (by linarith) hcoefficient

/-- **Within a corner** the output falls between no two levels by more than the twenty-fourth
part of the radius. -/
theorem rise_sub_le (hw : 0 < w) (hv : 0 < v) (hA : 0 ≤ A) (hB : 0 ≤ B) (hwR : w ≤ R)
    (hBR : B ≤ v + R) (hvR : v ≤ R) (hAR : A ≤ w + R) (hu : 0 ≤ u) (huu : u ≤ u')
    (huw : u' ≤ w + v) : rise w v A B u - rise w v A B u' ≤ R / 24 := by
  rcases le_total 0 (w * B - v * A) with hup | hdown
  · have hfall := rise_sub_le_of_bend hup hw hv hu huu
    have hdip := le_rise hw hv hA hB hwR hBR (u := u' - u) (by linarith) (by linarith)
    linarith
  · -- bent down, it is bent up in reverse
    have hfall : rise v w B A (w + v - u') - rise v w B A (w + v - u) ≤
        -rise v w B A (w + v - u - (w + v - u')) :=
      rise_sub_le_of_bend (by linarith) hv hw (by linarith) (by linarith)
    have hdip := le_rise hv hw hB hA hvR hAR (u := u' - u) (by linarith) (by linarith)
    rw [rise_reverse hw hv, rise_reverse hw hv] at hfall
    have hdistance : w + v - u - (w + v - u') = u' - u := by ring
    rw [hdistance] at hfall
    linarith

/-- The output along the piece that rounds a corner is that of its entry and the rise. -/
theorem Spans.output_eq {radius w₁ w₂ : ℝ} {previous corner next : Knot ℝ}
    (h : Spans radius previous corner next w₁ w₂) (l : ℝ) :
    l + (round radius previous corner next).curvePiece.gain l =
      (round radius previous corner next).entry.x + (round radius previous corner next).entry.y +
        rise w₁ w₂ ((1 + previous.slope corner) * w₁) ((1 + corner.slope next) * w₂)
          (l - (round radius previous corner next).entry.x) := by
  have hpos₁ := h.pos₁
  have hpos₂ := h.pos₂
  have hwidth : w₁ + w₂ ≠ 0 := by positivity
  have hfirst : 2 * w₁ + w₂ ≠ 0 := by positivity
  have hsecond : w₁ + 2 * w₂ ≠ 0 := by positivity
  have hcoefficients : ((round radius previous corner next).a,
      (round radius previous corner next).b) =
        parabola (round radius previous corner next).entry
          (centroid (round radius previous corner next).entry corner
            (round radius previous corner next).exit)
          (round radius previous corner next).exit := rfl
  rw [parabola_eq, centroid_eq, h.entry_eq, h.exit_eq, Prod.mk.injEq] at hcoefficients
  obtain ⟨ha, hb⟩ := hcoefficients
  rw [curvePiece_gain, hb, ha, h.entry_eq, rise]
  dsimp only
  -- the differences of the knots of the corner, in terms of its widths and slopes
  have hrun : corner.x + w₂ - (corner.x - w₁) = w₁ + w₂ := by ring
  have hmiddle : (corner.x - w₁ + corner.x + (corner.x + w₂)) / 3 - (corner.x - w₁) =
      (2 * w₁ + w₂) / 3 := by ring
  have hrest : w₁ + w₂ - (2 * w₁ + w₂) / 3 = (w₁ + 2 * w₂) / 3 := by ring
  rw [hrun, hmiddle, hrest]
  field_simp
  ring

end Corner

/-! ## Functions that nearly rise -/

/-- From the level `a` on, a function falls nowhere below its value at `a` by more than `δ`, and
between no two levels by more than twice that. -/
structure NearlyRises (f : ℝ → ℝ) (a δ : ℝ) : Prop where
  /-- the function stays above its beginning -/
  low : ∀ l, a ≤ l → f a - δ ≤ f l
  /-- and falls between two levels by little -/
  fall : ∀ l l', a ≤ l → l ≤ l' → f l - f l' ≤ 2 * δ

namespace NearlyRises

variable {f g : ℝ → ℝ} {a b δ : ℝ}

theorem congr (h : NearlyRises g a δ) (heq : ∀ l, a ≤ l → f l = g l) : NearlyRises f a δ := by
  refine ⟨fun l hl => ?_, fun l l' hl hl' => ?_⟩
  · rw [heq a le_rfl, heq l hl]
    exact h.low l hl
  · rw [heq l hl, heq l' (hl.trans hl')]
    exact h.fall l l' hl hl'

/-- A function that nearly rises from `b` on nearly rises from `a` on, if it is no lower at `b`
than at `a` and strays between them from neither by more than `δ`. -/
theorem extend (h : NearlyRises f b δ) (hends : f a ≤ f b)
    (hlow : ∀ l, a ≤ l → l ≤ b → f a - δ ≤ f l) (hhigh : ∀ l, a ≤ l → l ≤ b → f l ≤ f b + δ)
    (hfall : ∀ l l', a ≤ l → l ≤ l' → l' ≤ b → f l - f l' ≤ 2 * δ) : NearlyRises f a δ := by
  refine ⟨fun l hl => ?_, fun l l' hl hl' => ?_⟩
  · rcases le_total l b with hlb | hlb
    · exact hlow l hl hlb
    · have hrest := h.low l hlb
      linarith
  · rcases le_total l' b with hlb' | hlb'
    · exact hfall l l' hl hl' hlb'
    · rcases le_total l b with hlb | hlb
      · have hover := hhigh l hl hlb
        have hdip := h.low l' hlb'
        linarith
      · exact h.fall l l' hlb hl'

/-- A function that rises to `b`, and nearly from there on, nearly rises, by no more than
before. -/
theorem extend_of_monotoneOn (h : NearlyRises f b δ) (hab : a ≤ b) (hδ : 0 ≤ δ)
    (hmono : ∀ l l', a ≤ l → l ≤ l' → l' ≤ b → f l ≤ f l') : NearlyRises f a δ := by
  refine h.extend (hmono a b le_rfl hab le_rfl) (fun l hl hlb => ?_) (fun l hl hlb => ?_)
    fun l l' hl hl' hlb => ?_
  · have hrise := hmono a l le_rfl hl hlb
    linarith
  · have hrise := hmono l b hl hlb le_rfl
    linarith
  · have hrise := hmono l l' hl hl' hlb
    linarith

end NearlyRises

/-! ## Along the pieces -/

/-- Where the output does not fall from one knot to the next, the gain falls by at most one
decibel for each decibel of input. -/
theorem Knot.one_add_slope_nonneg {p q : Knot ℝ} (hlt : p.x < q.x) (hout : p.x + p.y ≤ q.x + q.y) :
    0 ≤ 1 + p.slope q := by
  have hrun : 0 < q.x - p.x := sub_pos.mpr hlt
  have hrise := Knot.slope_mul hlt
  refine nonneg_of_mul_nonneg_left ?_ hrun
  linarith

/-- A function with the same values beyond the exit of a corner as one that nearly rises there,
and with the output of the corner before, nearly rises. -/
theorem Corner.Spans.nearlyRises {radius w₁ w₂ : ℝ} {previous corner next : Knot ℝ} {f : ℝ → ℝ}
    (h : Spans radius previous corner next w₁ w₂) (hslope₁ : 0 ≤ 1 + previous.slope corner)
    (hslope₂ : 0 ≤ 1 + corner.slope next)
    (hf : ∀ l, l ≤ (round radius previous corner next).exit.x →
      f l = l + (round radius previous corner next).curvePiece.gain l)
    (hbeyond : NearlyRises f (round radius previous corner next).exit.x (radius / 24)) :
    NearlyRises f (round radius previous corner next).entry.x (radius / 24) := by
  have hw₁ := h.pos₁
  have hw₂ := h.pos₂
  have hradius : 0 < radius := hw₁.trans_le h.width₁
  have hA : 0 ≤ (1 + previous.slope corner) * w₁ := by positivity
  have hB : 0 ≤ (1 + corner.slope next) * w₂ := by positivity
  have hAR : (1 + previous.slope corner) * w₁ ≤ w₁ + radius := by
    have hheight := (abs_le.mp h.height₁).2
    linarith
  have hBR : (1 + corner.slope next) * w₂ ≤ w₂ + radius := by
    have hheight := (abs_le.mp h.height₂).2
    linarith
  have hwidth : (round radius previous corner next).exit.x =
      (round radius previous corner next).entry.x + (w₁ + w₂) := by
    rw [h.entry_eq, h.exit_eq]
    ring
  have houtput : ∀ l, l ≤ (round radius previous corner next).exit.x → f l =
      (round radius previous corner next).entry.x + (round radius previous corner next).entry.y +
        rise w₁ w₂ ((1 + previous.slope corner) * w₁) ((1 + corner.slope next) * w₂)
          (l - (round radius previous corner next).entry.x) :=
    fun l hl => (hf l hl).trans (h.output_eq l)
  have hbegin := houtput (round radius previous corner next).entry.x (by linarith)
  have hend := houtput (round radius previous corner next).exit.x le_rfl
  rw [sub_self, rise_zero] at hbegin
  rw [hwidth, add_sub_cancel_left, rise_all hw₁ hw₂, ← hwidth] at hend
  refine hbeyond.extend (by linarith) (fun l hl hlb => ?_) (fun l hl hlb => ?_)
    fun l l' hl hll hlb => ?_
  · have hdip := le_rise hw₁ hw₂ hA hB h.width₁ hBR (sub_nonneg.mpr hl) (by linarith)
    have hvalue := houtput l hlb
    linarith
  · have hover := rise_le hw₁ hw₂ hA hB h.width₂ hAR (sub_nonneg.mpr hl) (by linarith)
    have hvalue := houtput l hlb
    linarith
  · have hfall := rise_sub_le hw₁ hw₂ hA hB h.width₁ hBR h.width₂ hAR (sub_nonneg.mpr hl)
      (sub_le_sub_right hll _) (by linarith)
    have hvalue := houtput l (hll.trans hlb)
    have hvalue' := houtput l' hlb
    linarith

/-- A leg along which the output does not fall, before pieces along which it nearly rises. -/
theorem Corner.Spans.nearlyRises_leg {radius w₁ w₂ δ : ℝ} {previous corner next : Knot ℝ}
    {first : Piece ℝ} {rest : List (Piece ℝ)} (h : Spans radius previous corner next w₁ w₂)
    (hδ : 0 ≤ δ) (hslope : 0 ≤ 1 + corner.slope next)
    (hle : (round radius previous corner next).exit.x ≤ first.x)
    (hmeets : ((round radius previous corner next).legPiece (corner.slope next)).Meets first)
    (hordered : (first :: rest).Pairwise fun p q => p.x ≤ q.x)
    (hafter : NearlyRises (fun l => l + first.follow rest l) first.x δ) :
    NearlyRises (fun l => l + ((round radius previous corner next).legPiece
      (corner.slope next)).follow (first :: rest) l)
      (round radius previous corner next).exit.x δ := by
  have hbeyond := hafter.congr (f := fun l => l + ((round radius previous corner next).legPiece
    (corner.slope next)).follow (first :: rest) l) fun l hl => by
      rw [Piece.follow_of_meets hmeets (List.pairwise_cons.mp hordered).1 hl]
  refine hbeyond.extend_of_monotoneOn hle hδ fun l l' _ hll hl' => ?_
  rw [Piece.follow_of_le (hll.trans hl'), Piece.follow_of_le hl', h.legPiece_gain,
    h.legPiece_gain]
  have hrise := mul_nonneg hslope (sub_nonneg.mpr hll)
  linarith

/-- **Along the pieces** after a knot the output nearly rises, if it does not fall from knot to
knot. -/
theorem Corner.nearlyRises_pieces {radius : ℝ} {p previous k : Knot ℝ} {ks : List (Knot ℝ)}
    (hradius : 0 < radius) (honLeg : Knot.OnLeg p k previous)
    (h : (k :: ks).Pairwise fun p q => p.x < q.x)
    (hout : (p :: k :: ks).Pairwise fun p q => p.x + p.y ≤ q.x + q.y) {first : Piece ℝ}
    {rest : List (Piece ℝ)}
    (hpieces : (pieces radius previous (k :: ks) : List (Piece ℝ)) = first :: rest) :
    NearlyRises (fun l => l + first.follow rest l) first.x (radius / 24) := by
  have hδ : 0 ≤ radius / 24 := by positivity
  refine legs_induction hradius (P := fun p previous ks =>
    (p :: ks).Pairwise (fun p q => p.x + p.y ≤ q.x + q.y) → ∀ (first : Piece ℝ)
      (rest : List (Piece ℝ)), (pieces radius previous ks : List (Piece ℝ)) = first :: rest →
        NearlyRises (fun l => l + first.follow rest l) first.x (radius / 24)) ?_ ?_ honLeg h hout
    first rest hpieces
  · intro p previous last _ _ first rest hpieces
    rw [pieces_singleton, List.cons.injEq] at hpieces
    obtain ⟨rfl, rfl⟩ := hpieces
    simp only [Piece.follow_nil, Piece.gain_level]
    refine ⟨fun l hl => ?_, fun l l' _ hll => ?_⟩
    · linarith
    · linarith
  · intro p previous corner next rest w₁ w₂ honLeg hspans hordered ih hout first after hpieces
    rw [pieces_cons_cons, List.cons.injEq] at hpieces
    obtain ⟨rfl, rfl⟩ := hpieces
    obtain ⟨hp, hknots⟩ := List.pairwise_cons.mp hout
    have hnext : corner.x < next.x := (List.pairwise_cons.mp hordered).1 next List.mem_cons_self
    have hslope₁ : 0 ≤ 1 + previous.slope corner := by
      rw [honLeg.slope_eq]
      exact Knot.one_add_slope_nonneg (honLeg.le.trans_lt honLeg.lt) (hp corner List.mem_cons_self)
    have hslope₂ : 0 ≤ 1 + corner.slope next := Knot.one_add_slope_nonneg hnext
      ((List.pairwise_cons.mp hknots).1 next List.mem_cons_self)
    obtain ⟨first, after, hpieces, hle, -, -, hfirst⟩ :=
      exists_first hradius hspans.onLeg_exit (List.pairwise_cons.mp hordered).2
    have hinOrder := pieces_inOrder hradius (round radius previous corner next).exit (next :: rest)
      (Knot.pairwise_of_moved hspans.onLeg_exit.lt.le (hordered.imp le_of_lt))
    have hmeets : (round radius previous corner next).curvePiece.Meets
        ((round radius previous corner next).legPiece (corner.slope next)) :=
      hspans.curvePiece_gain_exit
    rw [hpieces] at hinOrder ⊢
    have hleg := hspans.nearlyRises_leg hδ hslope₂ hle (legPiece_meets hspans hnext hfirst)
      hinOrder.2 (ih hknots first after hpieces)
    refine hspans.nearlyRises hslope₁ hslope₂ (fun l hl => ?_) (hleg.congr fun l hl => ?_)
    · rw [Piece.follow_of_le hl]
    · rw [Piece.follow_of_meets hmeets hinOrder.1 hl]

/-! ## Drawn curves -/

section Drawn

variable {points : List (Point ℝ)} {knee gain : ℝ} {t : Transfer ℝ}

/-- Where the output does not fall between knots asked for, it does not fall between the knots
of the curve. -/
theorem Knot.pairwise_output_knots (hpoints : points ≠ []) (hknee : 0 < knee)
    (hstrict : points.Pairwise fun p q => p.input < q.input)
    (hrises : ∀ p ∈ asked points, ∀ q ∈ asked points, p.x < q.x → p.x + p.y ≤ q.x + q.y)
    (gain : ℝ) :
    (Transfer.knots points knee gain).Pairwise fun p q => p.x + p.y ≤ q.x + q.y := by
  have hasked : (withUnity (atPoints points)).Pairwise fun p q => p.x + p.y ≤ q.x + q.y :=
    (pairwise_withUnity .lt_levels (pairwise_atPoints hstrict)).imp_of_mem fun hp hq hlt =>
      hrises _ (mem_withUnity_iff.mp hp) _ (mem_withUnity_iff.mp hq) hlt
  obtain ⟨lowest, rest, hknots, hall⟩ := exists_ofPoints_eq knee hpoints
  -- the tail has the gain of the lowest knot, so less output
  have htail : lowest.x - 2.0 * knee + lowest.y ≤ lowest.x + lowest.y := by
    norm_num
    exact hknee.le
  have hofPoints : (ofPoints knee points).Pairwise fun p q => p.x + p.y ≤ q.x + q.y := by
    rw [hknots] at hasked
    rw [hall, List.pairwise_cons]
    refine ⟨fun k hk => ?_, hasked⟩
    rcases List.mem_cons.mp hk with rfl | hmem
    · exact htail
    · exact htail.trans ((List.pairwise_cons.mp hasked).1 k hmem)
  rw [Transfer.knots, List.pairwise_map]
  refine (hofPoints.sublist (mergeStraight_sublist _)).imp fun {p q} hpq => ?_
  have hscaled := mul_le_mul_of_nonneg_right hpq Decibel.inNepers_pos.le
  simp only [toNepers]
  linarith

/-- Up to where the first piece begins the gain is constant, so the output rises. -/
theorem NearlyRises.trace {first : Piece ℝ} {rest : List (Piece ℝ)} {δ : ℝ} (hδ : 0 ≤ δ)
    (hordered : (first :: rest).Pairwise fun p q => p.x ≤ q.x)
    (h : NearlyRises (fun l => l + first.follow rest l) first.x δ) {a : ℝ} (ha : a ≤ first.x) :
    NearlyRises (fun l => l + first.trace rest l) a δ := by
  have hbegin := Piece.follow_self (List.pairwise_cons.mp hordered).1
  have hflat (l : ℝ) (hl : l ≤ first.x) : first.trace rest l = first.y := by
    rcases hl.eq_or_lt with rfl | hlt
    · rw [Piece.trace, if_neg (lt_irrefl _), hbegin]
    · rw [Piece.trace, if_pos hlt]
  have hbeyond := h.congr (f := fun l => l + first.trace rest l) fun l hl => by
    rw [Piece.trace, if_neg hl.not_gt]
  refine hbeyond.extend_of_monotoneOn ha hδ fun l l' _ hll hl' => ?_
  rw [hflat l (hll.trans hl'), hflat l' hl']
  exact add_le_add_left hll _

/-- **Nearly monotone.** Where the output asked for does not fall from any knot to a later one,
unity gain at 0 dB among them, the output of the curve falls between no two levels by more than
a tenth of the knee. -/
theorem Transfer.outputDecibels_sub_le [Memory] (h : draw points knee gain = .ok t)
    (hstrict : points.Pairwise fun p q => p.input < q.input)
    (hrises : ∀ p ∈ Knot.asked points, ∀ q ∈ Knot.asked points,
      p.x < q.x → p.x + p.y ≤ q.x + q.y) {d d' : ℝ} (hd : d ≤ d') :
    t.outputDecibels d - t.outputDecibels d' ≤ 0.1 * knee := by
  obtain ⟨hpoints, hknee, -, -⟩ := draw_eq_ok_iff.mp h
  have hunit : (0 : ℝ) < Decibel.inNepers := Decibel.inNepers_pos
  have hradius := Decibel.toNepers_pos hknee
  obtain ⟨tail, k, ks, first, rest, hknots, hlevels, hpieces, -, hordered, hgain⟩ :=
    exists_follow h hstrict
  obtain ⟨htail, hafter⟩ := List.pairwise_cons.mp hlevels
  have hout := Knot.pairwise_output_knots hpoints hknee hstrict hrises gain
  rw [hknots] at hout
  have hrise := Corner.nearlyRises_pieces hradius (Knot.onLeg_self (htail k List.mem_cons_self))
    hafter hout hpieces
  have hlevel := Decibel.toNepers_le_toNepers.mpr hd
  have hfall := (hrise.trace (by positivity) hordered
    (min_le_right (Decibel.toNepers d) first.x)).fall _ _ (min_le_left _ _) hlevel
  have hinDecibels (d : ℝ) : t.outputDecibels d =
      (Decibel.toNepers d + first.trace rest (Decibel.toNepers d)) / Decibel.inNepers := by
    rw [outputDecibels, hgain, add_div, Decibel.toNepers, mul_div_cancel_right₀ _ hunit.ne']
  rw [hinDecibels, hinDecibels, ← sub_div, div_le_iff₀ hunit]
  refine hfall.trans ?_
  -- twice the twenty-fourth part is less than a tenth
  rw [Decibel.toNepers] at hradius ⊢
  norm_num
  linarith

/-- Points of the same output and a leap of 40 dB right after them: the corner between them
dips. -/
theorem Transfer.outputDecibels_sub_le_at_leap :
    ∃ t : Transfer ℝ,
      draw [(⟨-40, -40⟩ : Point ℝ), ⟨-20, -40⟩, ⟨-19, 0⟩] 6 0 = .ok t ∧ (-21 : ℝ) ≤ -20 ∧
        t.outputDecibels (-21 : ℝ) - t.outputDecibels (-20) ≤ 0.1 * 6 := by
  have hstrict : [(⟨-40, -40⟩ : Point ℝ), ⟨-20, -40⟩, ⟨-19, 0⟩].Pairwise
      fun p q => p.input < q.input := by
    norm_num
  obtain ⟨t, ht⟩ := exists_draw_eq (List.cons_ne_nil _ _) (by norm_num : (0 : ℝ) < 6)
    (hstrict.imp le_of_lt) 0 (.of_length rfl rfl)
  have hlevel : (-21 : ℝ) ≤ -20 := by norm_num
  refine ⟨t, ht, hlevel, outputDecibels_sub_le ht hstrict ?_ hlevel⟩
  -- the outputs asked for are -40, -40, 0 and 0 dB, in the order of their levels
  simp only [Knot.asked, Set.mem_ofPred_eq, List.mem_cons, List.not_mem_nil, or_false]
  rintro p (⟨_, rfl | rfl | rfl, rfl⟩ | ⟨-, rfl⟩) q (⟨_, rfl | rfl | rfl, rfl⟩ | ⟨-, rfl⟩)
  all_goals norm_num

end Drawn

end Compander
