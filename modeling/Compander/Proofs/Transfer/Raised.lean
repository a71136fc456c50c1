import Compander.Proofs.Transfer.Legs

/-!
# Raised curves

The output gain is added to the knots after they have been merged and before the corners are
rounded. It raises them all by one height, and in exact arithmetic nothing that a corner is
computed from notices: differences of knots are as before, so directions, lengths and slopes are,
and the parabola is, whose coefficients are relative to the entry. So the curve for another gain
is the same curve, raised:

* `Corner.round_raise`, `Corner.pieces_raise` — a corner between raised knots is raised, and so
  are all pieces after a raised knot;
* `Transfer.draw_raise` — the curve for another gain;
* `Transfer.index_raise`, `Transfer.gainDecibels_raise`, `Transfer.gain_raise` — reading a raised
  curve;
* `Transfer.outputDecibels_of_draw` — what another gain does to the pieces of a curve and to the
  levels that are read from it.
-/

namespace Compander

variable {height : ℝ}

/-! ## Raised knots -/

namespace Knot

variable {p q : Knot ℝ}

/-- A knot with a height added to its gain. -/
def raise (height : ℝ) (k : Knot ℝ) : Knot ℝ :=
  ⟨k.x, k.y + height⟩

@[simp]
theorem raise_x (k : Knot ℝ) : (k.raise height).x = k.x :=
  rfl

@[simp]
theorem raise_y_sub_raise_y (p q : Knot ℝ) :
    (q.raise height).y - (p.raise height).y = q.y - p.y :=
  add_sub_add_right_eq_sub _ _ _

@[simp]
theorem slope_raise (p q : Knot ℝ) : (p.raise height).slope (q.raise height) = p.slope q := by
  simp only [slope, raise_x, raise_y_sub_raise_y]

@[simp]
theorem direction_raise (p q : Knot ℝ) :
    (p.raise height).direction (q.raise height) = p.direction q := by
  simp only [direction, raise_x, raise_y_sub_raise_y]

@[simp]
theorem distance_raise (p q : Knot ℝ) :
    (p.raise height).distance (q.raise height) = p.distance q := by
  simp only [distance, raise_x, raise_y_sub_raise_y]

/-- A change of the gain in decibels raises a knot by the change in nepers. -/
theorem toNepers_eq_raise (g h : ℝ) (k : Knot ℝ) :
    toNepers h k = (toNepers g k).raise (Decibel.toNepers (h - g)) := by
  have hgain : (k.y + h) * Decibel.inNepers =
      (k.y + g) * Decibel.inNepers + Decibel.toNepers (h - g) := by
    rw [Decibel.toNepers]
    ring
  rw [toNepers, toNepers, raise, hgain]

end Knot

/-! ## Raised pieces -/

namespace Piece

/-- A piece with a height added to its gain. -/
def raise (height : ℝ) (p : Piece ℝ) : Piece ℝ :=
  ⟨p.x, p.y + height, p.a, p.b⟩

theorem flat_raise (k : Knot ℝ) : (flat (k.raise height) : Piece ℝ) = (flat k).raise height :=
  rfl

/-- On samples the height becomes a factor, as amplitudes are exponentials of levels. -/
theorem gain_raise (p : Piece ℝ) (l : ℝ) : (p.raise height).gain l = p.gain l + height :=
  add_right_comm _ _ _

end Piece

namespace Corner

/-- A corner with a height added to its gain. -/
def raise (height : ℝ) (c : Corner ℝ) : Corner ℝ :=
  ⟨c.entry.raise height, c.exit.raise height, c.a, c.b⟩

theorem before_raise (k : Knot ℝ) (distance direction : ℝ) :
    before (k.raise height) distance direction = (before k distance direction).raise height := by
  rw [before, before, Knot.raise, Knot.raise, add_sub_right_comm]

theorem after_raise (k : Knot ℝ) (distance direction : ℝ) :
    after (k.raise height) distance direction = (after k distance direction).raise height := by
  rw [after, after, Knot.raise, Knot.raise, add_right_comm]

theorem centroid_raise (p q r : Knot ℝ) :
    centroid (p.raise height) (q.raise height) (r.raise height) =
      (centroid p q r).raise height := by
  have hmean : (p.y + height + (q.y + height) + (r.y + height)) / 3.0 =
      (p.y + q.y + r.y) / 3.0 + height := by
    norm_num
    ring
  rw [centroid, centroid, Knot.raise, Knot.raise, Knot.raise, Knot.raise, hmean]

/-- The coefficients of a parabola are relative to its first knot, so raising all three knots
leaves them alone. -/
theorem parabola_raise (p q r : Knot ℝ) :
    parabola (p.raise height) (q.raise height) (r.raise height) = parabola p q r := by
  simp only [parabola, Knot.raise_x, Knot.raise_y_sub_raise_y]

/-- A corner between raised knots is raised, since directions and lengths are those of
differences. -/
theorem round_raise (radius : ℝ) (previous corner next : Knot ℝ) :
    round radius (previous.raise height) (corner.raise height) (next.raise height) =
      (round radius previous corner next).raise height := by
  simp only [round, Knot.direction_raise, Knot.distance_raise, before_raise, after_raise,
    centroid_raise, parabola_raise, raise]

/-- **Raised pieces.** The pieces after a raised knot, through raised knots, are raised: each
corner hands on an exit that is raised as well. -/
theorem pieces_raise (radius : ℝ) (previous : Knot ℝ) (ks : List (Knot ℝ)) :
    (pieces radius (previous.raise height) (ks.map (Knot.raise height)) : List (Piece ℝ)) =
      (pieces radius previous ks).map (Piece.raise height) := by
  induction ks generalizing previous with
  | nil => rfl
  | cons corner rest ih =>
    cases rest with
    | nil => rfl
    | cons next rest =>
      have hrest := ih (round radius previous corner next).exit
      rw [List.map_cons] at hrest
      rw [List.map_cons, List.map_cons, pieces, pieces, round_raise, Knot.slope_raise,
        List.map_cons, List.map_cons, ← hrest]
      rfl

end Corner

/-! ## Raised curves -/

namespace Transfer

variable {points : List (Point ℝ)} {knee gain : ℝ} {t : Transfer ℝ}

/-- A curve with a height in nepers added to its gain. -/
noncomputable def raise (height : ℝ) (t : Transfer ℝ) : Transfer ℝ :=
  ⟨t.pieces.map (Piece.raise height), t.floor.raise height, t.leastInput,
    t.floorGain * Real.exp height⟩

@[simp]
theorem raise_leastInput (t : Transfer ℝ) : (t.raise height).leastInput = t.leastInput :=
  rfl

@[simp]
theorem raise_floorGain (t : Transfer ℝ) :
    (t.raise height).floorGain = t.floorGain * Real.exp height :=
  rfl

theorem outline_raise (radius : ℝ) (ks : List (Knot ℝ)) :
    (outline radius (ks.map (Knot.raise height)) : List (Piece ℝ)) =
      (outline radius ks).map (Piece.raise height) := by
  cases ks with
  | nil => rfl
  | cons tail rest =>
    rw [List.map_cons, outline, outline, List.map_cons, Corner.pieces_raise, Piece.flat_raise]

theorem knots_raise (points : List (Point ℝ)) (knee g h : ℝ) :
    knots points knee h =
      (knots points knee g).map (Knot.raise (Decibel.toNepers (h - g))) := by
  rw [knots, knots, List.map_map]
  exact List.map_congr_left fun k _ => Knot.toNepers_eq_raise g h k

/-- A curve that has a piece besides its tail is raised with its pieces, and so is its
floor. -/
theorem ofPieces_raise (tail first : Piece ℝ) (rest : List (Piece ℝ)) :
    (ofPieces (W := ℝ) ((tail :: first :: rest).map (Piece.raise height)) : Transfer ℝ) =
      (ofPieces (W := ℝ) (tail :: first :: rest)).raise height := by
  have hexp : Real.exp (first.y + height) = Real.exp first.y * Real.exp height := Real.exp_add _ _
  have harray : (tail :: first :: rest).toArray.map (Piece.raise height) =
      ((tail :: first :: rest).map (Piece.raise height)).toArray := List.map_toArray
  rw [raise, ofPieces, ofPieces, harray]
  simp only [List.map_cons, List.getD_cons_succ, List.getD_cons_zero]
  exact congrArg (Transfer.mk _ _ _) hexp

/-- **Another gain.** The curve for another gain is drawn as well, and it is the same curve,
raised by the difference of the gains. -/
theorem draw_raise [Memory] {g : ℝ} (h : draw points knee g = .ok t) (g' : ℝ) :
    draw points knee g' = .ok (t.raise (Decibel.toNepers (g' - g))) := by
  obtain ⟨hpoints, hknee, hordered, hfits, ht⟩ := draw_eq_ok_iff.mp h
  obtain ⟨tail, k, ks, first, rest, hknots, hpieces, -, -⟩ := exists_pieces_eq h
  have houtline : (outline (Decibel.toNepers knee) (knots points knee g) : List (Piece ℝ)) =
      Piece.flat tail :: first :: rest := by
    rw [hknots, outline, hpieces]
  rw [houtline] at ht
  -- there are as many knots with one gain as with another
  have hfits' : Fits points knee g' :=
    ⟨hfits.knots, by rw [knots_raise points knee g g', List.length_map]; exact hfits.pieces⟩
  refine draw_eq_ok_iff.mpr ⟨hpoints, hknee, hordered, hfits', ?_⟩
  rw [knots_raise points knee g g', outline_raise, houtline, ofPieces_raise, ← ht]

/-! ## Reading a raised curve -/

/-- The piece for a level is found by where the pieces begin, which raising does not
change. -/
theorem index_raise (t : Transfer ℝ) (l : ℝ) : (t.raise height).index l = t.index l := by
  have hbelow : ∀ i : Nat, (t.raise height).pieces[i]?.any (fun p => decide (p.x < l)) =
      t.pieces[i]?.any fun p => decide (p.x < l) := by
    intro i
    rw [raise, Array.getElem?_map, Option.any_map]
    rfl
  have hsize : (t.raise height).pieces.size = t.pieces.size := Array.size_map
  simp only [index, hbelow, hsize]

theorem covering_raise (t : Transfer ℝ) (l : ℝ) :
    (t.raise height).covering l = (t.covering l).raise height := by
  rw [covering, covering, index_raise, Array.getD_eq_getD_getElem?, Array.getD_eq_getD_getElem?,
    raise, Array.getElem?_map, Option.getD_map]

theorem nepers_raise (t : Transfer ℝ) (l : ℝ) :
    (t.raise height).nepers l = t.nepers l + height := by
  rw [nepers, nepers, covering_raise, Piece.gain_raise, ite_add]
  rfl

theorem gainDecibels_raise (t : Transfer ℝ) (d : ℝ) :
    (t.raise height).gainDecibels d = t.gainDecibels d + height / Decibel.inNepers := by
  rw [gainDecibels_eq, gainDecibels_eq, nepers_raise, add_div]

/-- On samples the height becomes a factor. -/
theorem gain_raise (t : Transfer ℝ) (l : ℝ) :
    (t.raise height).gain l = t.gain l * Real.exp height := by
  have hexp (x : ℝ) : Arithmetic.exp (x + height) = Arithmetic.exp x * Real.exp height :=
    Real.exp_add x height
  simp only [gain, covering_raise, Piece.gain_raise, hexp, raise_leastInput, raise_floorGain,
    ite_mul]

theorem outputDecibels_raise (t : Transfer ℝ) (d : ℝ) :
    (t.raise height).outputDecibels d = t.outputDecibels d + height / Decibel.inNepers := by
  rw [outputDecibels, outputDecibels, gainDecibels_raise, add_assoc]

/-- **The output gain raises the curve.** Another gain leaves the number of pieces, where they
begin and their coefficients as they are, and adds the difference of the gains to the gain that
each begins with. So it adds the difference to every output level; and the level where the floor
begins stays. -/
theorem outputDecibels_of_draw [Memory] {g : ℝ} (h : draw points knee g = .ok t) (g' : ℝ) :
    ∃ t' : Transfer ℝ, draw points knee g' = .ok t' ∧
      t'.pieces.size = t.pieces.size ∧
      (∀ (i : Nat) (p : Piece ℝ), t.pieces[i]? = some p →
        t'.pieces[i]? = some ⟨p.x, p.y + (g' - g) * (Real.log 10 / 20), p.a, p.b⟩) ∧
      (∀ d : ℝ, t'.outputDecibels d = t.outputDecibels d + (g' - g)) ∧
      t'.leastInput = t.leastInput := by
  have hheight : Decibel.toNepers (g' - g) = (g' - g) * (Real.log 10 / 20) := by
    have htwenty : (20.0 : ℝ) = 20 := by norm_num
    rw [Decibel.toNepers, Decibel.inNepers, htwenty]
    rfl
  refine ⟨_, draw_raise h g', Array.size_map, fun i p hp => ?_, fun d => ?_, rfl⟩
  · rw [raise, Array.getElem?_map, hp, hheight]
    rfl
  · rw [outputDecibels_raise, Decibel.toNepers, mul_div_cancel_right₀ _ Decibel.inNepers_pos.ne']

/-- Six decibels more between -70 dB and -60 dB, where the curve is steep: the same pieces,
all of them raised. -/
theorem outputDecibels_of_draw_at_steep :
    ∃ t t' : Transfer ℝ, draw [(⟨-70, -70⟩ : Point ℝ), ⟨-60, -20⟩] 1 0 = .ok t ∧
      draw [(⟨-70, -70⟩ : Point ℝ), ⟨-60, -20⟩] 1 6 = .ok t' ∧
      t'.pieces.size = t.pieces.size ∧
      (∀ d : ℝ, t'.outputDecibels d = t.outputDecibels d + 6) ∧
      t'.leastInput = t.leastInput := by
  have hordered : [(⟨-70, -70⟩ : Point ℝ), ⟨-60, -20⟩].Pairwise fun p q => p.input ≤ q.input := by
    norm_num
  obtain ⟨t, ht⟩ := exists_draw_eq (List.cons_ne_nil _ _) one_pos hordered 0
    (.of_length rfl rfl)
  obtain ⟨t', ht', hsize, -, houtput, hleast⟩ := outputDecibels_of_draw ht 6
  exact ⟨t, t', ht, ht', hsize, fun d => by rw [houtput, sub_zero], hleast⟩

end Transfer

end Compander
