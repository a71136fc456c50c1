import Compander.Proofs.Transfer.Layout
import Compander.Proofs.Transfer.Legs

/-!
# The curve is continuous

In exact arithmetic the pieces of a curve through points in strict order fit together:

* `Piece.Meets` — a piece ends where the next begins;
* `Piece.continuous_trace` — pieces that meet in order make a continuous gain;
* `Corner.Rounds` — what two pieces do at a corner: a parabola from a point of the first leg by
  way of the centroid to a point of the second, and from there along the leg;
* `Transfer.continuous_gainDecibels` — all of it for a drawn curve.

How far the rounding of a corner reaches is part of `Corner.Rounds`. The exit is as far from the
corner as the radius, or half of the second leg if that is less; the entry as far as the radius, or
the whole of what is left of the first leg, as a corner before it may have taken its part. So a
corner is not left sharp, and two corners that are close to each other share the leg between them.
-/

namespace Compander

/-! ## Pieces that meet -/

namespace Piece

variable {p : Piece ℝ} {rest : List (Piece ℝ)}

/-- The knot that a piece begins at. -/
def knot (p : Piece ℝ) : Knot ℝ :=
  ⟨p.x, p.y⟩

/-- A piece ends where the next begins. -/
def Meets (p q : Piece ℝ) : Prop :=
  p.gain q.x = q.y

/-- From where the next piece begins, following a piece that meets it is following the next. -/
theorem follow_of_meets {q : Piece ℝ} {l : ℝ} (hmeets : p.Meets q) (hrest : ∀ r ∈ rest, q.x ≤ r.x)
    (hl : q.x ≤ l) : p.follow (q :: rest) l = q.follow rest l := by
  rcases hl.eq_or_lt with rfl | hlt
  · rw [follow_of_le le_rfl, follow_self hrest]
    exact hmeets
  · exact follow_of_lt hlt

theorem continuous_gain (p : Piece ℝ) : Continuous p.gain := by
  change Continuous fun l : ℝ => p.y + (l - p.x) * (p.a * (l - p.x) + p.b)
  fun_prop

/-- Pieces that meet in order are followed without a jump, by induction on the pieces. -/
theorem continuous_follow (hmeets : (p :: rest).IsChain Meets)
    (hordered : (p :: rest).Pairwise fun p q => p.x ≤ q.x) : Continuous (p.follow rest) := by
  induction rest generalizing p with
  | nil => exact continuous_gain p
  | cons q rest ih =>
    obtain ⟨hmeet, hrest⟩ := List.isChain_cons_cons.mp hmeets
    have htail := (List.pairwise_cons.mp hordered).2
    refine (continuous_gain p).if_le (ih hrest htail) continuous_id continuous_const ?_
    -- where one piece takes over from the other, both have the same gain
    rintro l rfl
    rw [follow_self (List.pairwise_cons.mp htail).1]
    exact hmeet

theorem continuous_trace (hmeets : (p :: rest).IsChain Meets)
    (hordered : (p :: rest).Pairwise fun p q => p.x ≤ q.x) : Continuous (p.trace rest) := by
  have htrace : p.trace rest = fun l => if p.x ≤ l then p.follow rest l else p.y := by
    funext l
    rw [trace, ← ite_not]
    simp only [not_lt]
  rw [htrace]
  refine (continuous_follow hmeets hordered).if_le continuous_const continuous_const
    continuous_id ?_
  rintro l rfl
  exact follow_self (List.pairwise_cons.mp hordered).1

end Piece

/-! ## Pieces at the corners -/

namespace Corner

variable {radius : ℝ} {p previous k : Knot ℝ} {ks : List (Knot ℝ)} {before : Piece ℝ}

/-- What two pieces do at the corner `k` of the legs from `p` and to `q`, after a piece that
left the corner before at `previous`. How far from the corner they begin is what the radius
says, but the first leg is used from there on only, and the second up to its middle. -/
structure Rounds (radius : ℝ) (p previous k q : Knot ℝ) (curve leg : Piece ℝ) : Prop where
  /-- the corner before has been left on the first leg -/
  onLeg : Knot.OnLeg p k previous
  /-- the first begins on the first leg -/
  entry_mem : p.x ≤ curve.x ∧ curve.x ≤ k.x
  /-- with the gain of the leg -/
  entry_eq : curve.y = k.y - p.slope k * (k.x - curve.x)
  /-- as far from the corner as the radius, or where the corner before was left -/
  entry_distance : curve.knot.distance k = min radius (previous.distance k)
  /-- the second begins on the second leg -/
  exit_mem : k.x ≤ leg.x ∧ leg.x ≤ q.x
  /-- with the gain of the leg -/
  exit_eq : leg.y = k.y + k.slope q * (leg.x - k.x)
  /-- as far from the corner as the radius, or in the middle of the leg -/
  exit_distance : k.distance leg.knot = min radius (k.distance q / 2)
  /-- the first goes through the entry -/
  gain_entry : curve.gain curve.x = curve.y
  /-- by way of the centroid of entry, corner and exit -/
  gain_centroid : curve.gain (centroid curve.knot k leg.knot).x =
    (centroid curve.knot k leg.knot).y
  /-- to the exit -/
  gain_exit : curve.gain leg.x = leg.y
  /-- the second runs along the second leg -/
  gain_leg : ∀ l, leg.gain l = k.y + k.slope q * (l - k.x)

/-- A corner rounded after a knot on the first leg is rounded between the legs. -/
theorem Spans.rounds {corner next : Knot ℝ} {w₁ w₂ : ℝ} (honLeg : Knot.OnLeg p corner previous)
    (h : Spans radius previous corner next w₁ w₂) :
    Rounds radius p previous corner next (round radius previous corner next).curvePiece
      ((round radius previous corner next).legPiece (corner.slope next)) := by
  have hpos₁ := h.pos₁
  have hle₁ := h.le₁
  have hpos₂ := h.pos₂
  have hle₂ := h.le₂
  have hbegun := honLeg.le
  refine ⟨honLeg, ?_, ?_, h.distance₁, ?_, ?_, h.distance₂, Piece.gain_self _,
    h.curvePiece_gain_centroid, h.curvePiece_gain_exit, h.legPiece_gain⟩
  · rw [curvePiece, h.entry_eq]
    constructor
    · dsimp only
      linarith
    · dsimp only
      linarith
  · rw [curvePiece, h.entry_eq, honLeg.slope_eq]
    ring
  · rw [legPiece, h.exit_eq]
    constructor
    · dsimp only
      linarith
    · dsimp only
      linarith
  · rw [legPiece, h.exit_eq]
    ring

/-- A piece along a leg meets the first piece after it, which begins on the same leg. -/
theorem legPiece_meets {corner next : Knot ℝ} {w₁ w₂ : ℝ} {first : Piece ℝ}
    (h : Spans radius previous corner next w₁ w₂) (hnext : corner.x < next.x)
    (hfirst : first.y = next.y - corner.slope next * (next.x - first.x)) :
    ((round radius previous corner next).legPiece (corner.slope next)).Meets first := by
  have hrise := Knot.slope_mul hnext
  rw [Piece.Meets, h.legPiece_gain, hfirst]
  linarith

/-- The pieces after a knot meet, at every entry and at every exit. -/
theorem pieces_meet (hradius : 0 < radius) (honLeg : Knot.OnLeg p k previous)
    (h : (k :: ks).Pairwise fun p q => p.x < q.x) :
    (pieces radius previous (k :: ks) : List (Piece ℝ)).IsChain Piece.Meets := by
  refine legs_induction hradius
    (P := fun _ previous ks => (pieces radius previous ks).IsChain Piece.Meets) ?_ ?_ honLeg h
  · intro p previous last _
    rw [pieces_singleton]
    exact List.isChain_singleton _
  · intro p previous corner next rest w₁ w₂ _ hspans hordered hchain
    obtain ⟨hnext, hrest⟩ := List.pairwise_cons.mp hordered
    obtain ⟨first, after, hpieces, -, -, -, hfirst⟩ :=
      exists_first hradius hspans.onLeg_exit hrest
    rw [hpieces] at hchain
    rw [pieces_cons_cons, hpieces, List.isChain_cons_cons, List.isChain_cons_cons]
    exact ⟨hspans.curvePiece_gain_exit,
      legPiece_meets hspans (hnext next List.mem_cons_self) hfirst, hchain⟩

/-- Each inner knot is rounded by its two pieces, after the piece before them, which is the
one that the entry lies on. -/
theorem exists_rounds (hradius : 0 < radius) (honLeg : Knot.OnLeg p k previous)
    (hbefore : before.knot = previous) (h : (k :: ks).Pairwise fun p q => p.x < q.x) (j : Nat)
    (a b c : Knot ℝ) (ha : (p :: k :: ks)[j]? = some a) (hb : (p :: k :: ks)[j + 1]? = some b)
    (hc : (p :: k :: ks)[j + 2]? = some c) :
    ∃ last curve leg, (before :: pieces radius previous (k :: ks))[2 * j]? = some last ∧
      (before :: pieces radius previous (k :: ks))[2 * j + 1]? = some curve ∧
      (before :: pieces radius previous (k :: ks))[2 * j + 2]? = some leg ∧
      Rounds radius a last.knot b c curve leg := by
  refine legs_induction hradius (P := fun p previous ks => ∀ (before : Piece ℝ) (j : Nat)
    (a b c : Knot ℝ), before.knot = previous → (p :: ks)[j]? = some a →
      (p :: ks)[j + 1]? = some b → (p :: ks)[j + 2]? = some c →
      ∃ last curve leg, (before :: pieces radius previous ks)[2 * j]? = some last ∧
        (before :: pieces radius previous ks)[2 * j + 1]? = some curve ∧
        (before :: pieces radius previous ks)[2 * j + 2]? = some leg ∧
        Rounds radius a last.knot b c curve leg)
    ?_ ?_ honLeg h before j a b c hbefore ha hb hc
  · intro p previous last _ before j a b c _ _ _ hc
    simp at hc
  · intro p previous corner next rest w₁ w₂ honLeg hspans _ ih before j a b c hbefore ha hb hc
    rw [pieces_cons_cons]
    cases j with
    | zero =>
      obtain rfl := Option.some.inj ha
      obtain rfl := Option.some.inj hb
      obtain rfl := Option.some.inj hc
      exact ⟨_, _, _, rfl, rfl, rfl, hbefore.symm ▸ hspans.rounds honLeg⟩
    | succ j =>
      -- the piece along the second leg begins at the exit, and is the piece before the next corner
      exact ih _ j a b c rfl ha hb hc

end Corner

/-! ## Drawn curves -/

namespace Transfer

variable {points : List (Point ℝ)} {knee gain : ℝ} {t : Transfer ℝ}

/-- **Continuity.** A curve through points in strict order has a continuous gain. Each piece
after the tail ends where the next begins. There are two pieces for each inner knot: the first
goes from one leg of the knot by way of the centroid to the other leg, and the second runs along
that leg. They begin as far from the knot as the knee, unless that would take more of the first
leg than the corner before has left of it, or more than half of the second. -/
theorem continuous_gainDecibels [Memory] (h : draw points knee gain = .ok t)
    (hstrict : points.Pairwise fun p q => p.input < q.input) :
    Continuous (fun d : ℝ => t.gainDecibels d) ∧
      (∀ (i : Nat) (p q : Piece ℝ), 1 ≤ i → t.pieces[i]? = some p → t.pieces[i + 1]? = some q →
        p.gain q.x = q.y) ∧
      t.pieces.size + 2 = 2 * (knots points knee gain).length ∧
      ∀ (j : Nat) (a b c : Knot ℝ), (knots points knee gain)[j]? = some a →
        (knots points knee gain)[j + 1]? = some b → (knots points knee gain)[j + 2]? = some c →
          ∃ before curve leg, t.pieces[2 * j]? = some before ∧
            t.pieces[2 * j + 1]? = some curve ∧ t.pieces[2 * j + 2]? = some leg ∧
            Corner.Rounds (Decibel.toNepers knee) a before.knot b c curve leg := by
  obtain ⟨-, hknee, -, -⟩ := draw_eq_ok_iff.mp h
  have hradius := Decibel.toNepers_pos hknee
  obtain ⟨tail, k, ks, first, rest, hknots, hlevels, hpieces, ht, hordered, hgain⟩ :=
    exists_follow h hstrict
  obtain ⟨htail, hafter⟩ := List.pairwise_cons.mp hlevels
  have honLeg := Knot.onLeg_self (htail k List.mem_cons_self)
  have hmeets := Corner.pieces_meet hradius honLeg hafter
  rw [hpieces] at hmeets
  refine ⟨?_, fun i p q hi hp hq => ?_, size_pieces h, fun j a b c ha hb hc => ?_⟩
  · simp only [hgain]
    exact ((Piece.continuous_trace hmeets hordered).comp (continuous_mul_const _)).div_const _
  · obtain ⟨n, rfl⟩ := Nat.exists_eq_add_of_le' hi
    rw [getElem?_succ ht] at hp hq
    obtain ⟨hn, rfl⟩ := List.getElem?_eq_some_iff.mp hp
    obtain ⟨hn', rfl⟩ := List.getElem?_eq_some_iff.mp hq
    exact List.isChain_iff_getElem.mp hmeets n hn'
  · rw [hknots] at ha hb hc
    obtain ⟨before, curve, leg, hbefore, hcurve, hleg, hrounds⟩ :=
      Corner.exists_rounds hradius honLeg (rfl : (Piece.flat tail).knot = tail) hafter j a b c
        ha hb hc
    rw [hpieces, ← List.getElem?_toArray, ← ht] at hbefore hcurve hleg
    exact ⟨before, curve, leg, hbefore, hcurve, hleg, hrounds⟩

/-- The leg from -70 dB to -60 dB goes up five times as steep as unity. The corner at its upper
end, the second of two, is rounded as well. -/
theorem continuous_gainDecibels_at_steep :
    ∃ t : Transfer ℝ, draw [(⟨-70, -70⟩ : Point ℝ), ⟨-60, -20⟩] 1 0 = .ok t ∧
      Continuous (fun d : ℝ => t.gainDecibels d) ∧
        (∀ (i : Nat) (p q : Piece ℝ), 1 ≤ i → t.pieces[i]? = some p → t.pieces[i + 1]? = some q →
          p.gain q.x = q.y) ∧
        ∃ before curve leg, t.pieces[2]? = some before ∧ t.pieces[3]? = some curve ∧
          t.pieces[4]? = some leg ∧
          Corner.Rounds (Decibel.toNepers 1) (Knot.toNepers 0 ⟨-70, 0⟩) before.knot
            (Knot.toNepers 0 ⟨-60, 40⟩) (Knot.toNepers 0 ⟨0, 0⟩) curve leg := by
  have hstrict : [(⟨-70, -70⟩ : Point ℝ), ⟨-60, -20⟩].Pairwise fun p q => p.input < q.input := by
    norm_num
  have hneg : ∀ p ∈ [(⟨-70, -70⟩ : Point ℝ), ⟨-60, -20⟩], p.input < 0 := by
    norm_num
  have hmerged : Knot.mergeStraight (Knot.ofPoints 1 [(⟨-70, -70⟩ : Point ℝ), ⟨-60, -20⟩]) =
      [⟨-72, 0⟩, ⟨-70, 0⟩, ⟨-60, 40⟩, ⟨0, 0⟩] := by
    rw [Knot.ofPoints_of_neg _ hneg]
    norm_num [Knot.atPoints, Knot.withTail, Knot.mergeStraight, Knot.mergeFrom,
      Knot.isStraight_iff]
  have hknots : knots [(⟨-70, -70⟩ : Point ℝ), ⟨-60, -20⟩] 1 0 =
      [⟨-72, 0⟩, ⟨-70, 0⟩, ⟨-60, 40⟩, ⟨0, 0⟩].map (Knot.toNepers 0) := by
    rw [knots, hmerged]
  obtain ⟨t, ht⟩ := exists_draw_eq (List.cons_ne_nil _ _) one_pos (hstrict.imp le_of_lt) 0
    (.of_length rfl rfl)
  obtain ⟨hcontinuous, hmeets, -, hcorners⟩ := continuous_gainDecibels ht hstrict
  rw [hknots] at hcorners
  exact ⟨t, ht, hcontinuous, hmeets, hcorners 1 _ _ _ rfl rfl rfl⟩

end Transfer

end Compander
