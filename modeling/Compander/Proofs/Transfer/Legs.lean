import Compander.Proofs.Transfer.Order

/-!
# Along the legs of a curve

Where the points of a curve stand in strict order, every leg between two of its knots goes to
the right. The rounding replaces the knot before each corner by the exit of the corner before,
which lies on the same leg. So each corner is rounded between legs of the slopes that the knots
have, however often the knot before it has moved:

* `Knot.OnLeg` — a knot on a leg, before its end;
* `Corner.legs_induction` — induction along the corners, with the moved knot on its leg;
* `Corner.exists_first` — the first piece after a knot begins on the leg from it;
* `Transfer.nepers`, `Transfer.nepers_eq_trace` — the gain of pieces in order is read by following
  them;
* `Transfer.exists_follow` — so is the gain of a curve through points in strict order.

The induction is stated once, because every property of the pieces needs it: continuity, nearness
to the points, and how far the output falls are each a property of one corner, and a step from
there to the next.
-/

namespace Compander

/-! ## Moved knots -/

/-- A knot on the leg from `p` to `q`, before its end. -/
structure Knot.OnLeg (p q k : Knot ℝ) : Prop where
  /-- the leg has begun -/
  le : p.x ≤ k.x
  /-- and has not ended -/
  lt : k.x < q.x
  /-- what is left of it has the slope of the whole -/
  slope_eq : k.slope q = p.slope q

theorem Knot.onLeg_self {p q : Knot ℝ} (h : p.x < q.x) : OnLeg p q p :=
  ⟨le_rfl, h, rfl⟩

namespace Corner

variable {radius w₁ w₂ : ℝ} {p previous corner next k : Knot ℝ} {ks : List (Knot ℝ)}

/-- The exit of a corner lies on the second leg, before its end, as half of the leg is left at
least. -/
theorem Spans.onLeg_exit (h : Spans radius previous corner next w₁ w₂) :
    Knot.OnLeg corner next (round radius previous corner next).exit := by
  have hpos := h.pos₂
  have hle := h.le₂
  have hnext : corner.x < next.x := by linarith
  have hlt : (round radius previous corner next).exit.x < next.x := by
    rw [h.exit_eq]
    dsimp only
    linarith
  refine ⟨?_, hlt, ?_⟩
  · rw [h.exit_eq]
    dsimp only
    linarith
  · -- the difference to the end of the leg is the same multiple of the slope
    have hrise := Knot.slope_mul hnext
    have hrun : next.x - (round radius previous corner next).exit.x ≠ 0 :=
      (sub_pos.mpr hlt).ne'
    rw [Knot.slope_eq hlt, div_eq_iff hrun, h.exit_eq]
    dsimp only
    linarith

/-- **Induction along the corners.** What holds of the last knot, and of a corner if it holds of
the knots after it, holds of all knots; the knot before each corner, moved or not, lies on the
leg before it. -/
theorem legs_induction (hradius : 0 < radius) {P : Knot ℝ → Knot ℝ → List (Knot ℝ) → Prop}
    (hlast : ∀ p previous last, Knot.OnLeg p last previous → P p previous [last])
    (hcorner : ∀ p previous corner next rest w₁ w₂, Knot.OnLeg p corner previous →
      Spans radius previous corner next w₁ w₂ →
      (corner :: next :: rest).Pairwise (fun p q => p.x < q.x) →
      P corner (round radius previous corner next).exit (next :: rest) →
      P p previous (corner :: next :: rest))
    (honLeg : Knot.OnLeg p k previous) (h : (k :: ks).Pairwise fun p q => p.x < q.x) :
    P p previous (k :: ks) := by
  induction ks generalizing p previous k with
  | nil => exact hlast p previous k honLeg
  | cons next rest ih =>
    obtain ⟨hnext, hrest⟩ := List.pairwise_cons.mp h
    obtain ⟨w₁, w₂, hspans⟩ := exists_spans hradius honLeg.lt (hnext next List.mem_cons_self)
    exact hcorner p previous k next rest w₁ w₂ honLeg hspans h (ih hspans.onLeg_exit hrest)

/-- The first piece after a knot begins on the leg from it, and not more than the radius before
the end of the leg. -/
theorem exists_first (hradius : 0 < radius) (honLeg : Knot.OnLeg p k previous)
    (h : (k :: ks).Pairwise fun p q => p.x < q.x) :
    ∃ first rest, (pieces radius previous (k :: ks) : List (Piece ℝ)) = first :: rest ∧
      previous.x ≤ first.x ∧ first.x ≤ k.x ∧ k.x - first.x ≤ radius ∧
      first.y = k.y - p.slope k * (k.x - first.x) := by
  cases ks with
  | nil =>
    refine ⟨_, [], pieces_singleton radius previous k, honLeg.lt.le, le_rfl, ?_, ?_⟩
    · dsimp only
      linarith
    · dsimp only
      ring
  | cons next rest =>
    have hnext : k.x < next.x := (List.pairwise_cons.mp h).1 next List.mem_cons_self
    obtain ⟨w₁, w₂, hspans⟩ := exists_spans hradius honLeg.lt hnext
    have hpos := hspans.pos₁
    have hle := hspans.le₁
    have hwidth := hspans.width₁
    refine ⟨_, _, pieces_cons_cons radius previous k next rest, ?_⟩
    rw [curvePiece, hspans.entry_eq, honLeg.slope_eq]
    dsimp only
    refine ⟨by linarith, by linarith, by linarith, by ring⟩

end Corner

/-! ## Reading the gain -/

namespace Piece

variable {p : Piece ℝ} {rest : List (Piece ℝ)}

theorem gain_self (p : Piece ℝ) : p.gain p.x = p.y := by
  rw [gain, sub_self, zero_mul, add_zero]

theorem gain_level (x y l : ℝ) : (⟨x, y, 0, 0⟩ : Piece ℝ).gain l = y := by
  rw [gain, zero_mul, zero_add, mul_zero, add_zero]

/-- Followed at its own beginning, a piece has the gain it begins with, and no later piece has
begun. -/
theorem follow_self (h : ∀ q ∈ rest, p.x ≤ q.x) : p.follow rest p.x = p.y := by
  cases rest with
  | nil => exact gain_self p
  | cons q rest => rw [follow_of_le (h q List.mem_cons_self), gain_self]

/-- The gain of a curve at a level, of which `p` is the first piece after the tail: constant up
to where that piece begins. -/
noncomputable def trace (p : Piece ℝ) (rest : List (Piece ℝ)) (l : ℝ) : ℝ :=
  if l < p.x then p.y else p.follow rest l

end Piece

namespace Transfer

variable {points : List (Point ℝ)} {knee gain : ℝ} {t : Transfer ℝ}

/-- The gain in nepers at a level in nepers: that of the floor below the floor, and from there on
that of the piece that covers the level. -/
noncomputable def nepers (t : Transfer ℝ) (l : ℝ) : ℝ :=
  if l < t.floor.x then t.floor.y else (t.covering l).gain l

/-- Nothing is rounded on the way from a level to its gain, so decibels and nepers are a
factor apart. -/
theorem gainDecibels_eq (t : Transfer ℝ) (d : ℝ) :
    t.gainDecibels d = t.nepers (Decibel.toNepers d) / Decibel.inNepers := by
  rw [nepers, ite_div]
  rfl

/-- The gain of pieces in order is read by following them, with the floor below the first one
after the tail. -/
theorem nepers_eq_trace {tail first : Piece ℝ} {rest : List (Piece ℝ)}
    (ht : t.pieces = (tail :: first :: rest).toArray) (hfloor : t.floor = first)
    (hordered : t.InOrder) (l : ℝ) : t.nepers l = first.trace rest l := by
  have hsize : 2 ≤ t.pieces.size := by
    rw [ht, List.size_toArray, List.length_cons, List.length_cons]
    omega
  have hcovers := covers_of_inOrder hsize hordered l
  have hlt : t.index l < t.pieces.size := hcovers.lt_size
  have hpiece := Array.getElem?_eq_getElem hlt
  have hcovering : t.covering l = t.pieces[t.index l] := by
    rw [covering, Array.getD_eq_getD_getElem?, hpiece, Option.getD_some]
  have hgain := Piece.gain_of_covers ht hcovers hpiece
  rw [← hcovering] at hgain
  rw [nepers, Piece.trace, ← hgain, hfloor]

/-- **Reading the gain.** A curve through points in strict order has its knots in strict order,
and its gain is read by following the pieces after its first knot. -/
theorem exists_follow [Memory] (h : draw points knee gain = .ok t)
    (hstrict : points.Pairwise fun p q => p.input < q.input) :
    ∃ tail k ks first rest, knots points knee gain = tail :: k :: ks ∧
      (tail :: k :: ks).Pairwise (fun p q => p.x < q.x) ∧
      (Corner.pieces (Decibel.toNepers knee) tail (k :: ks) : List (Piece ℝ)) = first :: rest ∧
      t.pieces = (Piece.flat tail :: first :: rest).toArray ∧
      (first :: rest).Pairwise (fun p q => p.x ≤ q.x) ∧
      ∀ d : ℝ, t.gainDecibels d = first.trace rest (Decibel.toNepers d) / Decibel.inNepers := by
  obtain ⟨hpoints, hknee, -, -⟩ := draw_eq_ok_iff.mp h
  obtain ⟨tail, k, ks, first, rest, hknots, hpieces, ht, hfloor⟩ := exists_pieces_eq h
  have hlevels := Knot.pairwise_knots .lt_levels hpoints hknee hstrict gain
  rw [hknots] at hlevels
  have hordered := inOrder_of_draw h
  rw [InOrder, ht] at hordered
  refine ⟨tail, k, ks, first, rest, hknots, hlevels, hpieces, ht,
    (List.pairwise_cons.mp hordered).2, fun d => ?_⟩
  rw [gainDecibels_eq, nepers_eq_trace ht hfloor (inOrder_of_draw h)]

end Transfer

end Compander
