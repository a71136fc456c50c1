import Compander.Proofs.Transfer.Knots

/-!
# The geometry of a corner

A corner takes a share of each of its two legs away: `Corner.Cut` says how much that may be, and
`Corner.exists_cuts` that the entry and the exit of a corner are such cuts, in exact arithmetic
and for legs of any kind, vertical ones and those without length included. On legs that go to
the right the cuts have a width and a slope (`Corner.Spans`), and the parabola between them
is a true one:

* `Corner.Spans.curvePiece_gain_centroid`, `Corner.Spans.curvePiece_gain_exit` — it goes by way
  of the centroid to the exit;
* `Corner.pieces_cons_cons` — the pieces at a corner.

A corner is computed by way of directions, with a sine and a cosine for each leg. Nothing is left
of them here: a length along a leg is a share of its two differences, and all that comes later is
linear in such shares. What keeps the shares below one is the lesser of the radius and the length.
-/

namespace Compander.Corner

variable {radius : ℝ} {previous corner next p q r : Knot ℝ} {rest : List (Knot ℝ)}

/-! ## Cuts -/

theorem lesser_eq_min (x y : ℝ) : lesser x y = min x y := by
  rw [lesser]
  split
  · rename_i h
    exact (min_eq_right h.le).symm
  · rename_i h
    exact (min_eq_left (not_lt.mp h)).symm

/-- The share of the leg from `p` to `q` that a corner takes: as much as is as long as the radius,
but at most a given part of the leg. It is something of every leg that goes to the right. -/
structure Cut (radius most : ℝ) (p q : Knot ℝ) (share : ℝ) : Prop where
  /-- the share is not negative -/
  nonneg : 0 ≤ share
  /-- it is no more than the part -/
  le_most : share ≤ most
  /-- it is as long as the radius, or else it is the part -/
  mul_distance_eq : share * p.distance q = min radius (most * p.distance q)
  /-- something is taken -/
  pos : p.x < q.x → 0 < share

/-- What is taken is no longer than the radius, so a corner reaches no farther than a user has
asked for. -/
theorem Cut.mul_distance_le {most share : ℝ} (h : Cut radius most p q share) :
    share * p.distance q ≤ radius :=
  h.mul_distance_eq.trans_le (min_le_left _ _)

/-- A length along a leg is the same share of both differences, if the leg is no shorter. A
leg without length has no direction, and then the length is zero. -/
theorem length_mul_direction {length : ℝ} (hlength : 0 ≤ length) (hle : length ≤ p.distance q) :
    length * WideArithmetic.cos (p.direction q) = length / p.distance q * (q.x - p.x) ∧
      length * WideArithmetic.sin (p.direction q) = length / p.distance q * (q.y - p.y) := by
  rw [← Knot.distance_mul_cos p q, ← Knot.distance_mul_sin p q, ← mul_assoc, ← mul_assoc]
  rcases eq_or_ne (p.distance q) 0 with hzero | hne
  · have hnone : length = 0 := le_antisymm (hle.trans_eq hzero) hlength
    simp only [hnone, zero_div, zero_mul, and_self]
  · rw [div_mul_cancel₀ _ hne]
    exact ⟨rfl, rfl⟩

theorem cut_min (hradius : 0 < radius) {most : ℝ} (hmost : 0 < most) (p q : Knot ℝ) :
    Cut radius most p q (min radius (most * p.distance q) / p.distance q) := by
  have hdistance := Knot.distance_nonneg p q
  have hmin : 0 ≤ min radius (most * p.distance q) := by positivity
  refine ⟨by positivity, ?_, ?_, fun h => ?_⟩
  · exact div_le_of_le_mul₀ hdistance hmost.le (min_le_right _ _)
  · rcases hdistance.eq_or_lt with hzero | hpos
    · rw [← hzero, mul_zero, mul_zero, min_eq_right hradius.le]
    · rw [div_mul_cancel₀ _ hpos.ne']
  · have hpos := Knot.distance_pos h
    positivity

/-- The entry and the exit of a corner are cuts of its legs, the second of at most half a
leg. -/
theorem exists_cuts (hradius : 0 < radius) (previous corner next : Knot ℝ) :
    ∃ s₁ s₂, Cut radius 1 previous corner s₁ ∧ Cut radius (1 / 2) corner next s₂ ∧
      (round radius previous corner next).entry =
        ⟨corner.x - s₁ * (corner.x - previous.x), corner.y - s₁ * (corner.y - previous.y)⟩ ∧
      (round radius previous corner next).exit =
        ⟨corner.x + s₂ * (next.x - corner.x), corner.y + s₂ * (next.y - corner.y)⟩ := by
  have hfirst := Knot.distance_nonneg previous corner
  have hsecond := Knot.distance_nonneg corner next
  have htwo : corner.distance next / 2.0 = 1 / 2 * corner.distance next := by
    norm_num
    ring
  have hlength₁ : 0 ≤ min radius (1 * previous.distance corner) := by positivity
  have hlength₂ : 0 ≤ min radius (1 / 2 * corner.distance next) := by positivity
  have hhalf : 1 / 2 * corner.distance next ≤ corner.distance next := by linarith
  obtain ⟨hcos₁, hsin₁⟩ := length_mul_direction hlength₁
    ((min_le_right _ _).trans_eq (one_mul _))
  obtain ⟨hcos₂, hsin₂⟩ := length_mul_direction hlength₂ ((min_le_right _ _).trans hhalf)
  refine ⟨_, _, cut_min hradius one_pos previous corner,
    cut_min hradius one_half_pos corner next, ?_, ?_⟩
  · simp only [round, before, lesser_eq_min]
    rw [← hcos₁, ← hsin₁, one_mul]
  · simp only [round, after, lesser_eq_min, htwo]
    rw [← hcos₂, ← hsin₂]

/-- What a corner leaves of its legs: the entry lies on the first, the exit on the second. -/
structure Within (previous corner next : Knot ℝ) (c : Corner ℝ) : Prop where
  /-- the first leg has begun -/
  previous_le : previous.x ≤ c.entry.x
  /-- and has not ended -/
  entry_le : c.entry.x ≤ corner.x
  /-- the second leg has begun -/
  le_exit : corner.x ≤ c.exit.x
  /-- and has not ended -/
  exit_le : c.exit.x ≤ next.x

/-- A corner stays within its legs, be they vertical or have no length, so no level is passed
twice. -/
theorem round_within (hradius : 0 < radius) (h₁ : previous.x ≤ corner.x)
    (h₂ : corner.x ≤ next.x) :
    Within previous corner next (round radius previous corner next) := by
  obtain ⟨s₁, s₂, hcut₁, hcut₂, hentry, hexit⟩ := exists_cuts hradius previous corner next
  have hpart₁ := mul_nonneg hcut₁.nonneg (sub_nonneg.mpr h₁)
  have hwhole₁ := mul_le_mul_of_nonneg_right hcut₁.le_most (sub_nonneg.mpr h₁)
  have hpart₂ := mul_nonneg hcut₂.nonneg (sub_nonneg.mpr h₂)
  have hwhole₂ := mul_le_mul_of_nonneg_right hcut₂.le_most (sub_nonneg.mpr h₂)
  constructor
  · rw [hentry]
    dsimp only
    linarith
  · rw [hentry]
    dsimp only
    linarith
  · rw [hexit]
    dsimp only
    linarith
  · rw [hexit]
    dsimp only
    linarith

/-! ## Legs that go to the right -/

/-- A corner between two legs that go to the right takes a width of each, along its slope. -/
structure Spans (radius : ℝ) (previous corner next : Knot ℝ) (w₁ w₂ : ℝ) : Prop where
  /-- something is taken from the first leg -/
  pos₁ : 0 < w₁
  /-- and it is not more than the leg -/
  le₁ : w₁ ≤ corner.x - previous.x
  /-- nor wider than the radius -/
  width₁ : w₁ ≤ radius
  /-- nor higher -/
  height₁ : |previous.slope corner * w₁| ≤ radius
  /-- the corner leaves the first leg there -/
  entry_eq : (round radius previous corner next).entry =
    ⟨corner.x - w₁, corner.y - previous.slope corner * w₁⟩
  /-- as far from its end as the radius, or at its beginning -/
  distance₁ : (round radius previous corner next).entry.distance corner =
    min radius (previous.distance corner)
  /-- something is taken from the second leg -/
  pos₂ : 0 < w₂
  /-- and it is not more than half of it -/
  le₂ : w₂ ≤ (next.x - corner.x) / 2
  /-- nor wider than the radius -/
  width₂ : w₂ ≤ radius
  /-- nor higher -/
  height₂ : |corner.slope next * w₂| ≤ radius
  /-- the corner joins the second leg there -/
  exit_eq : (round radius previous corner next).exit =
    ⟨corner.x + w₂, corner.y + corner.slope next * w₂⟩
  /-- as far from its beginning as the radius, or in its middle -/
  distance₂ : corner.distance (round radius previous corner next).exit =
    min radius (corner.distance next / 2)

/-- A cut of a leg that goes to the right has a width, and a height along the slope. -/
theorem Cut.spans {most share : ℝ} (h : Cut radius most p q share) (hpq : p.x < q.x) :
    0 < share * (q.x - p.x) ∧ share * (q.x - p.x) ≤ most * (q.x - p.x) ∧
      share * (q.x - p.x) ≤ radius ∧ |p.slope q * (share * (q.x - p.x))| ≤ radius ∧
      p.slope q * (share * (q.x - p.x)) = share * (q.y - p.y) := by
  have hdx : 0 < q.x - p.x := sub_pos.mpr hpq
  have hshare : 0 < share := h.pos hpq
  have hheight : p.slope q * (share * (q.x - p.x)) = share * (q.y - p.y) := by
    rw [mul_left_comm, Knot.slope_mul hpq]
  refine ⟨by positivity, mul_le_mul_of_nonneg_right h.le_most hdx.le, ?_, ?_, hheight⟩
  · calc share * (q.x - p.x) ≤ share * p.distance q :=
          mul_le_mul_of_nonneg_left
            ((le_abs_self _).trans (Knot.abs_sub_x_le_distance p q)) h.nonneg
      _ ≤ radius := h.mul_distance_le
  · rw [hheight, abs_mul, abs_of_pos hshare]
    exact (mul_le_mul_of_nonneg_left (Knot.abs_sub_y_le_distance p q) h.nonneg).trans
      h.mul_distance_le

theorem exists_spans (hradius : 0 < radius) (h₁ : previous.x < corner.x)
    (h₂ : corner.x < next.x) : ∃ w₁ w₂, Spans radius previous corner next w₁ w₂ := by
  obtain ⟨s₁, s₂, hcut₁, hcut₂, hentry, hexit⟩ := exists_cuts hradius previous corner next
  obtain ⟨hpos₁, hle₁, hwidth₁, hheight₁, hslope₁⟩ := hcut₁.spans h₁
  obtain ⟨hpos₂, hle₂, hwidth₂, hheight₂, hslope₂⟩ := hcut₂.spans h₂
  refine ⟨_, _, hpos₁, hle₁.trans_eq (one_mul _), hwidth₁, hheight₁, ?_, ?_, hpos₂,
    hle₂.trans_eq (by ring), hwidth₂, hheight₂, ?_, ?_⟩
  · rw [hentry, hslope₁]
  · rw [hentry, Knot.distance_of_share (p := previous) (q := corner) hcut₁.nonneg
      (sub_sub_cancel _ _) (sub_sub_cancel _ _), hcut₁.mul_distance_eq, one_mul]
  · rw [hexit, hslope₂]
  · rw [hexit, Knot.distance_of_share (p := corner) (q := next) hcut₂.nonneg
      (add_sub_cancel_left _ _) (add_sub_cancel_left _ _), hcut₂.mul_distance_eq,
      one_div_mul_eq_div]

/-! ## The parabola -/

/-- Every number is finite, so the coefficients are those of the parabola, and the straight
line never takes their place. -/
theorem parabola_eq (p q r : Knot ℝ) :
    parabola p q r =
      (((r.y - p.y) / (r.x - p.x) - (q.y - p.y) / (q.x - p.x)) / ((r.x - p.x) - (q.x - p.x)),
        (q.y - p.y) / (q.x - p.x) -
          ((r.y - p.y) / (r.x - p.x) - (q.y - p.y) / (q.x - p.x)) /
            ((r.x - p.x) - (q.x - p.x)) * (q.x - p.x)) :=
  rfl

/-- The parabola from `p` by way of `q` to `r` does go by way of `q`. -/
theorem parabola_middle (hpq : p.x < q.x) (r : Knot ℝ) :
    p.y + (q.x - p.x) * ((parabola p q r).1 * (q.x - p.x) + (parabola p q r).2) = q.y := by
  have hne : q.x - p.x ≠ 0 := (sub_pos.mpr hpq).ne'
  rw [parabola_eq, add_sub_cancel, mul_div_cancel₀ _ hne]
  ring

/-- The parabola from `p` by way of `q` to `r` does end at `r`, though its coefficients are
relative to `p`. -/
theorem parabola_end (hpq : p.x < q.x) (hqr : q.x < r.x) :
    p.y + (r.x - p.x) * ((parabola p q r).1 * (r.x - p.x) + (parabola p q r).2) = r.y := by
  have hne₁ : q.x - p.x ≠ 0 := (sub_pos.mpr hpq).ne'
  have hne₂ : r.x - p.x ≠ 0 := (sub_pos.mpr (hpq.trans hqr)).ne'
  have hne₃ : r.x - p.x - (q.x - p.x) ≠ 0 := by
    have hsub : r.x - p.x - (q.x - p.x) = r.x - q.x := by ring
    rw [hsub]
    exact (sub_pos.mpr hqr).ne'
  rw [parabola_eq]
  field_simp
  ring

/-! ## Pieces at a corner -/

/-- The piece that rounds a corner. -/
def curvePiece (c : Corner ℝ) : Piece ℝ :=
  ⟨c.entry.x, c.entry.y, c.a, c.b⟩

/-- The piece that follows the leg after a corner. -/
def legPiece (c : Corner ℝ) (slope : ℝ) : Piece ℝ :=
  ⟨c.exit.x, c.exit.y, 0, slope⟩

theorem pieces_singleton (radius : ℝ) (previous last : Knot ℝ) :
    (pieces radius previous [last] : List (Piece ℝ)) = [⟨last.x, last.y, 0, 0⟩] := by
  rw [pieces, Piece.flat, zero_literal]
  rfl

theorem pieces_cons_cons (radius : ℝ) (previous corner next : Knot ℝ) (rest : List (Knot ℝ)) :
    (pieces radius previous (corner :: next :: rest) : List (Piece ℝ)) =
      (round radius previous corner next).curvePiece ::
        (round radius previous corner next).legPiece (corner.slope next) ::
          pieces radius (round radius previous corner next).exit (next :: rest) := by
  rw [pieces, zero_literal]
  rfl

theorem centroid_eq (p q r : Knot ℝ) :
    centroid p q r = ⟨(p.x + q.x + r.x) / 3, (p.y + q.y + r.y) / 3⟩ := by
  have hthree : (3.0 : ℝ) = 3 := by norm_num
  rw [centroid, hthree]

theorem curvePiece_gain (radius : ℝ) (previous corner next : Knot ℝ) (l : ℝ) :
    (round radius previous corner next).curvePiece.gain l =
      (round radius previous corner next).entry.y +
        (l - (round radius previous corner next).entry.x) *
          ((round radius previous corner next).a *
              (l - (round radius previous corner next).entry.x) +
            (round radius previous corner next).b) :=
  rfl

namespace Spans

variable {w₁ w₂ : ℝ}

/-- The centroid of a corner lies between its entry and its exit, so the parabola by way of it
is defined. -/
theorem centroid_mem (h : Spans radius previous corner next w₁ w₂) :
    let c := round radius previous corner next
    c.entry.x < (centroid c.entry corner c.exit).x ∧
      (centroid c.entry corner c.exit).x < c.exit.x := by
  have hpos₁ := h.pos₁
  have hpos₂ := h.pos₂
  dsimp only
  rw [centroid_eq, h.entry_eq, h.exit_eq]
  constructor
  · dsimp only
    linarith
  · dsimp only
    linarith

/-- The piece that rounds a corner goes by way of the centroid of entry, corner and exit. -/
theorem curvePiece_gain_centroid (h : Spans radius previous corner next w₁ w₂) :
    let c := round radius previous corner next
    c.curvePiece.gain (centroid c.entry corner c.exit).x = (centroid c.entry corner c.exit).y :=
  parabola_middle h.centroid_mem.1 _

/-- The piece that rounds a corner ends at its exit, where the next piece begins. -/
theorem curvePiece_gain_exit (h : Spans radius previous corner next w₁ w₂) :
    let c := round radius previous corner next
    c.curvePiece.gain c.exit.x = c.exit.y :=
  parabola_end h.centroid_mem.1 h.centroid_mem.2

/-- The piece after a corner runs along the second leg, at every level and not only up to the
next corner. -/
theorem legPiece_gain (h : Spans radius previous corner next w₁ w₂) (l : ℝ) :
    ((round radius previous corner next).legPiece (corner.slope next)).gain l =
      corner.y + corner.slope next * (l - corner.x) := by
  rw [legPiece, h.exit_eq, Piece.gain]
  ring

end Spans

end Compander.Corner
