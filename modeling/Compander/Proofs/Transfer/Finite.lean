import Compander.Proofs.Floating.Angles
import Compander.Proofs.Floating.Narrow
import Compander.Proofs.Transfer.Knots

/-!
# Finite pieces

A piece is computed in doubles and narrowed at the end. Degenerate corners are caught before
that: where the coefficients of the parabola are not finite a straight line takes its place, and
a vertical leg counts as level. So the coefficients are numbers, but one that is finite in doubles
may be infinite as a single:

* `Transfer.outline_eq_map` — the pieces in singles are those in doubles, narrowed;
* `Corner.isNaN_a_of_mem_pieces` — the quadratic coefficient is always a number;
* `Transfer.Moderate.within_knots` — the knots of moderate points are bounded;
* `Corner.sound_of_mem_pieces` — the pieces of bounded knots are at bounded places, and the linear
  coefficient is a number;
* `Transfer.isFinite_iff_of_draw` — when all pieces of a curve are finite;
* `Transfer.not_isFinite_of_small_knee` — a curve with an infinite coefficient.
-/

namespace Compander

/-- Doubles as the narrow format too: nothing is rounded a second time. -/
instance : Precision Float Float where
  narrow x := x
  widen x := x

/-! ## Narrowing -/

namespace Piece

/-- A piece in doubles, rounded to singles. -/
def narrow (p : Piece Float) : Piece Float32 :=
  ⟨Binary.narrow p.x, Binary.narrow p.y, Binary.narrow p.a, Binary.narrow p.b⟩

/-- All numbers of a piece are finite. -/
structure IsFinite (p : Piece Float32) : Prop where
  /-- the input level -/
  x : p.x.isFinite = true
  /-- the gain -/
  y : p.y.isFinite = true
  /-- the quadratic coefficient -/
  a : p.a.isFinite = true
  /-- the linear coefficient -/
  b : p.b.isFinite = true

/-- No number of a piece is too large for a single. -/
structure FitsSingle (p : Piece Float) : Prop where
  /-- the input level -/
  x : Double.FitsSingle p.x
  /-- the gain -/
  y : Double.FitsSingle p.y
  /-- the quadratic coefficient -/
  a : Double.FitsSingle p.a
  /-- the linear coefficient -/
  b : Double.FitsSingle p.b

instance (p : Piece Float) : Decidable p.FitsSingle :=
  decidable_of_iff (Double.FitsSingle p.x ∧ Double.FitsSingle p.y ∧ Double.FitsSingle p.a ∧
    Double.FitsSingle p.b)
    ⟨fun h => ⟨h.1, h.2.1, h.2.2.1, h.2.2.2⟩, fun h => ⟨h.x, h.y, h.a, h.b⟩⟩

theorem isFinite_narrow_iff (p : Piece Float) : p.narrow.IsFinite ↔ p.FitsSingle := by
  constructor
  · rintro ⟨hx, hy, ha, hb⟩
    exact ⟨(Double.isFinite_narrow_iff _).mp hx, (Double.isFinite_narrow_iff _).mp hy,
      (Double.isFinite_narrow_iff _).mp ha, (Double.isFinite_narrow_iff _).mp hb⟩
  · rintro ⟨hx, hy, ha, hb⟩
    exact ⟨(Double.isFinite_narrow_iff _).mpr hx, (Double.isFinite_narrow_iff _).mpr hy,
      (Double.isFinite_narrow_iff _).mpr ha, (Double.isFinite_narrow_iff _).mpr hb⟩

end Piece

/-- The pieces in singles are those in doubles, narrowed, because the knots are the same. -/
theorem Corner.pieces_eq_map (radius : Float) (previous : Knot Float) (ks : List (Knot Float)) :
    (pieces radius previous ks : List (Piece Float32)) =
      (pieces radius previous ks).map Piece.narrow := by
  induction ks generalizing previous with
  | nil => rfl
  | cons corner rest ih =>
    cases rest with
    | nil =>
      rw [pieces, pieces, List.map_singleton]
      rfl
    | cons next rest =>
      rw [pieces, pieces, ih]
      rfl

theorem Transfer.outline_eq_map (radius : Float) (ks : List (Knot Float)) :
    (outline radius ks : List (Piece Float32)) = (outline radius ks).map Piece.narrow := by
  cases ks with
  | nil => rfl
  | cons tail rest =>
    rw [outline, outline, Corner.pieces_eq_map]
    rfl

/-! ## Bounded knots -/

theorem Decibel.within_inNepers : Double.Within (-3) (inNepers : Float) :=
  Double.within_of_fits (by decide +kernel)

namespace Knot

/-- A knot in doubles, no coordinate of which is above a power of two in magnitude. -/
structure Within (k : ℤ) (p : Knot Float) : Prop where
  /-- the input level -/
  x : Double.Within k p.x
  /-- the gain -/
  y : Double.Within k p.y

variable {j k : ℤ} {p q : Knot Float} {ks : List (Knot Float)}

theorem Within.mono (h : Within j p) (hjk : j ≤ k) : Within k p :=
  ⟨h.x.mono hjk, h.y.mono hjk⟩

/-- Both differences of bounded knots are finite, as the bound is far below the greatest
double. -/
theorem Within.isFinite_sub (hp : Within 120 p) (hq : Within 120 q) :
    (q.x - p.x).isFinite = true ∧ (q.y - p.y).isFinite = true := by
  have hdx : Double.Within 121 (q.x - p.x) := hq.x.sub hp.x (by decide)
  have hdy : Double.Within 121 (q.y - p.y) := hq.y.sub hp.y (by decide)
  exact ⟨hdx.isFinite, hdy.isFinite⟩

theorem isNaN_slope (hp : Within 120 p) (hq : Within 120 q) : (p.slope q).isNaN = false := by
  obtain ⟨hdx, hdy⟩ := hp.isFinite_sub hq
  rw [slope]
  split
  · rename_i hpos
    exact Double.isNaN_div_of_pos hdy hdx hpos
  · exact Double.isNaN_zero

theorem within_direction (hp : Within 120 p) (hq : Within 120 q) :
    Double.Within 4 (p.direction q) := by
  obtain ⟨hdx, hdy⟩ := hp.isFinite_sub hq
  exact Elementary.within_angle hdy hdx

theorem unsigned_distance (p q : Knot Float) : Double.Unsigned (p.distance q) :=
  Double.unsigned_sqrt _

/-- The knots after unity gain has been put in are those before it and one more. -/
theorem mem_withUnity (hp : p ∈ withUnity ks) : p ∈ ks ∨ p = ⟨0.0, 0.0⟩ := by
  rw [withUnity] at hp
  split at hp
  · exact .inl hp
  · rcases List.mem_append.mp hp with hbelow | hrest
    · exact .inl ((List.takeWhile_sublist _).subset hbelow)
    · rcases List.mem_cons.mp hrest with rfl | habove
      · exact .inr rfl
      · exact .inl ((List.dropWhile_sublist _).subset habove)

theorem within_of_mem_withTail {knee : Float} (hknee : Double.Within 80 knee)
    (h : ∀ p ∈ ks, Within 81 p) (hp : p ∈ withTail knee ks) : Within 83 p := by
  cases ks with
  | nil => cases hp
  | cons first rest =>
    rw [withTail] at hp
    rcases List.mem_cons.mp hp with rfl | hrest
    · have hfirst := h first List.mem_cons_self
      have htwo : Double.Within 2 2.0 := Double.within_of_fits (by decide +kernel)
      have htwice : Double.Within 82 (2.0 * knee) := htwo.mul hknee (by decide)
      exact ⟨hfirst.x.sub htwice (by decide), hfirst.y.mono (by decide)⟩
    · exact (h p hrest).mono (by decide)

theorem within_toNepers {gain : Float} (hgain : Double.Within 80 gain) (h : Within 83 p) :
    Within 81 (p.toNepers gain) := by
  have hsum : Double.Within 84 (p.y + gain) := h.y.add hgain (by decide)
  exact ⟨h.x.mul Decibel.within_inNepers (by decide), hsum.mul Decibel.within_inNepers (by decide)⟩

end Knot

/-- What a curve is drawn from, no number of which is above `2 ^ 80` in magnitude. -/
structure Transfer.Moderate (points : List (Point Float)) (knee gain : Float) : Prop where
  /-- the points -/
  points : ∀ p ∈ points, Double.Within 80 p.input ∧ Double.Within 80 p.output
  /-- the knee -/
  knee : Double.Within 80 knee
  /-- the gain -/
  gain : Double.Within 80 gain

/-- Bounds that are read off the digits, which for a curve with given points is a matter of
computation. -/
theorem Transfer.moderate_of_fits {points : List (Point Float)} {knee gain : Float}
    (hpoints : ∀ p ∈ points, Double.fits 80 p.input = true ∧ Double.fits 80 p.output = true)
    (hknee : Double.fits 80 knee = true) (hgain : Double.fits 80 gain = true) :
    Moderate points knee gain :=
  ⟨fun p hp => (hpoints p hp).imp Double.within_of_fits Double.within_of_fits,
    Double.within_of_fits hknee, Double.within_of_fits hgain⟩

/-- The knots of such a curve are bounded, merging having taken some away and the gain having
been added. -/
theorem Transfer.Moderate.within_knots {points : List (Point Float)} {knee gain : Float}
    (h : Moderate points knee gain) {p : Knot Float} (hp : p ∈ knots points knee gain) :
    Knot.Within 81 p := by
  obtain ⟨k, hmerged, rfl⟩ := List.mem_map.mp hp
  have hknot := (Knot.mergeStraight_sublist _).subset hmerged
  refine Knot.within_toNepers h.gain (Knot.within_of_mem_withTail h.knee (fun p hp => ?_) hknot)
  rcases Knot.mem_withUnity hp with hpoint | rfl
  · obtain ⟨point, hmem, rfl⟩ := List.mem_map.mp hpoint
    obtain ⟨hinput, houtput⟩ := h.points point hmem
    exact ⟨hinput.mono (by decide), houtput.sub hinput (by decide)⟩
  · have hzero : Double.Within 81 0.0 := Double.within_of_fits (by decide +kernel)
    exact ⟨hzero, hzero⟩

/-! ## Pieces of bounded knots -/

/-- A piece in doubles at a bounded place, with a linear coefficient that is a number. -/
structure Piece.Sound (p : Piece Float) : Prop where
  /-- the input level -/
  x : Double.Within 120 p.x
  /-- the gain -/
  y : Double.Within 120 p.y
  /-- the linear coefficient -/
  b : p.b.isNaN = false

/-- A piece in singles at a finite place, with coefficients that are numbers. These may be
infinite. -/
structure Piece.IsNumber (p : Piece Float32) : Prop where
  /-- the input level -/
  x : p.x.isFinite = true
  /-- the gain -/
  y : p.y.isFinite = true
  /-- the quadratic coefficient -/
  a : p.a.isNaN = false
  /-- the linear coefficient -/
  b : p.b.isNaN = false

theorem Piece.Sound.narrow {p : Piece Float} (h : p.Sound) (ha : p.a.isNaN = false) :
    p.narrow.IsNumber :=
  ⟨(Double.isFinite_narrow_iff _).mpr (h.x.fitsSingle (by decide)),
    (Double.isFinite_narrow_iff _).mpr (h.y.fitsSingle (by decide)),
    Double.isNaN_narrow ha, Double.isNaN_narrow h.b⟩

namespace Corner

variable {p q r previous corner next : Knot Float} {radius d direction : Float}

/-- The lesser of a bounded number and one that is not negative is bounded, even if the other
one is infinite or not a number. -/
theorem within_lesser (hradius : Double.Within 78 radius) (hd : Double.Unsigned d) :
    Double.Within 78 (lesser radius d) := by
  rw [lesser]
  split
  · rename_i hlt
    obtain ⟨hfinite, hnonneg, hless⟩ := hd.of_lt hradius.isFinite hlt
    refine ⟨hfinite, ?_⟩
    rw [abs_of_nonneg hnonneg]
    exact hless.le.trans ((le_abs_self _).trans hradius.abs_le)
  · exact hradius

/-- The way along a leg, by the cosine and the sine of its direction. -/
theorem within_way (hd : Double.Within 78 d) (hdirection : Double.Within 4 direction) :
    Double.Within 118 (d * Elementary.cosine direction) ∧
      Double.Within 118 (d * Elementary.sine direction) :=
  ⟨hd.mul (Elementary.within_cosine hdirection) (by decide),
    hd.mul (Elementary.within_sine hdirection) (by decide)⟩

theorem within_before (hp : Knot.Within 81 p) (hd : Double.Within 78 d)
    (hdirection : Double.Within 4 direction) : Knot.Within 120 (before p d direction) := by
  obtain ⟨hdx, hdy⟩ := within_way hd hdirection
  exact ⟨hp.x.sub hdx (by decide), hp.y.sub hdy (by decide)⟩

theorem within_after (hp : Knot.Within 81 p) (hd : Double.Within 78 d)
    (hdirection : Double.Within 4 direction) : Knot.Within 120 (after p d direction) := by
  obtain ⟨hdx, hdy⟩ := within_way hd hdirection
  exact ⟨hp.x.add hdx (by decide), hp.y.add hdy (by decide)⟩

/-- A quadratic coefficient that is not finite is replaced by zero, so it is always a
number. -/
theorem isNaN_parabola_a (p q r : Knot Float) : (parabola p q r).1.isNaN = false := by
  rw [parabola]
  split
  · rename_i hfinite
    exact Double.isNaN_of_isFinite (Bool.and_eq_true_iff.mp hfinite).1
  · split
    · exact Double.isNaN_zero
    · exact Double.isNaN_zero

/-- So is a linear coefficient, by the slope between the ends, which is a number if these are
bounded. -/
theorem isNaN_parabola_b (hp : Knot.Within 120 p) (hr : Knot.Within 120 r) :
    (parabola p q r).2.isNaN = false := by
  obtain ⟨hdx, hdy⟩ := hp.isFinite_sub hr
  rw [parabola]
  split
  · rename_i hfinite
    exact Double.isNaN_of_isFinite (Bool.and_eq_true_iff.mp hfinite).2
  · split
    · rename_i hpos
      exact Double.isNaN_div_of_pos hdy hdx hpos
    · exact Double.isNaN_zero

/-- Whatever the knots are, the quadratic coefficients are numbers, as those of straight
pieces are zero. -/
theorem isNaN_a_of_mem_pieces {ks : List (Knot Float)} {piece : Piece Float}
    (h : piece ∈ pieces radius previous ks) : piece.a.isNaN = false := by
  induction ks generalizing previous with
  | nil => cases h
  | cons corner rest ih =>
    cases rest with
    | nil =>
      rw [pieces, List.mem_singleton] at h
      rw [h]
      exact Double.isNaN_zero
    | cons next rest =>
      rw [pieces] at h
      rcases List.mem_cons.mp h with rfl | h
      · exact isNaN_parabola_a _ _ _
      · rcases List.mem_cons.mp h with rfl | h
        · exact Double.isNaN_zero
        · exact ih h

theorem sound_flat (hp : Knot.Within 120 p) : (Piece.flat p : Piece Float).Sound :=
  ⟨hp.x, hp.y, Double.isNaN_zero⟩

/-- The ends of a corner are bounded, though by more than its knots are. -/
theorem within_round (hradius : Double.Within 78 radius) (hprevious : Knot.Within 120 previous)
    (hcorner : Knot.Within 81 corner) (hnext : Knot.Within 81 next) :
    Knot.Within 120 (round radius previous corner next).entry ∧
      Knot.Within 120 (round radius previous corner next).exit := by
  have hmoderate := hcorner.mono (by decide : (81 : ℤ) ≤ 120)
  have hfirst := within_lesser hradius (Knot.unsigned_distance previous corner)
  have hsecond := within_lesser hradius (Knot.unsigned_distance corner next).half
  exact ⟨within_before hcorner hfirst (Knot.within_direction hprevious hmoderate),
    within_after hcorner hsecond (Knot.within_direction hmoderate (hnext.mono (by decide)))⟩

/-- **Pieces of bounded knots.** The knot before a corner is the exit of the corner before. That
exit is measured from a knot and not from another exit, so the bound does not grow. -/
theorem sound_of_mem_pieces (hradius : Double.Within 78 radius)
    (hprevious : Knot.Within 120 previous) {ks : List (Knot Float)}
    (hks : ∀ k ∈ ks, Knot.Within 81 k) {piece : Piece Float}
    (h : piece ∈ pieces radius previous ks) : piece.Sound := by
  induction ks generalizing previous with
  | nil => cases h
  | cons corner rest ih =>
    obtain ⟨hcorner, hrest⟩ := List.forall_mem_cons.mp hks
    cases rest with
    | nil =>
      rw [pieces, List.mem_singleton] at h
      rw [h]
      exact sound_flat (hcorner.mono (by decide))
    | cons next rest =>
      have hnext : Knot.Within 81 next := hrest next List.mem_cons_self
      obtain ⟨hentry, hexit⟩ := within_round hradius hprevious hcorner hnext
      rw [pieces] at h
      rcases List.mem_cons.mp h with rfl | h
      · exact ⟨hentry.x, hentry.y, isNaN_parabola_b hentry hexit⟩
      · rcases List.mem_cons.mp h with rfl | h
        · exact ⟨hexit.x, hexit.y,
            Knot.isNaN_slope (hcorner.mono (by decide)) (hnext.mono (by decide))⟩
        · exact ih hexit hrest h

end Corner

namespace Transfer

variable {points : List (Point Float)} {knee gain : Float} {t : Transfer Float32}

theorem isNaN_a_of_mem_outline {radius : Float} {ks : List (Knot Float)} {piece : Piece Float}
    (h : piece ∈ outline radius ks) : piece.a.isNaN = false := by
  cases ks with
  | nil => cases h
  | cons tail rest =>
    rw [outline] at h
    rcases List.mem_cons.mp h with rfl | h
    · exact Double.isNaN_zero
    · exact Corner.isNaN_a_of_mem_pieces h

theorem sound_of_mem_outline {radius : Float} (hradius : Double.Within 78 radius)
    {ks : List (Knot Float)} (hks : ∀ k ∈ ks, Knot.Within 81 k) {piece : Piece Float}
    (h : piece ∈ outline radius ks) : piece.Sound := by
  cases ks with
  | nil => cases h
  | cons tail rest =>
    obtain ⟨htail, hrest⟩ := List.forall_mem_cons.mp hks
    rw [outline] at h
    rcases List.mem_cons.mp h with rfl | h
    · exact Corner.sound_flat (htail.mono (by decide))
    · exact Corner.sound_of_mem_pieces hradius (htail.mono (by decide)) hrest h

theorem mem_pieces_iff [Memory] (h : draw points knee gain = .ok t) {p : Piece Float32} :
    p ∈ t.pieces ↔ ∃ q ∈ (outline (Decibel.toNepers knee) (knots points knee gain) :
      List (Piece Float)), q.narrow = p := by
  obtain ⟨-, rfl⟩ := of_draw h
  rw [ofPieces, List.mem_toArray, outline_eq_map, List.mem_map]

/-- **Finite pieces.** All pieces of a curve in singles are finite exactly if no number of the
pieces in doubles is too large for a single. The quadratic coefficients are numbers in any case.
If the points, the knee and the gain are moderate, so are the linear ones, and every piece begins
at a finite level and gain. -/
theorem isFinite_iff_of_draw [Memory] (h : draw points knee gain = .ok t) :
    ((∀ p ∈ t.pieces, p.IsFinite) ↔
      ∀ q ∈ (outline (Decibel.toNepers knee) (knots points knee gain) : List (Piece Float)),
        q.FitsSingle) ∧
      (∀ p ∈ t.pieces, p.a.isNaN = false) ∧
      (Moderate points knee gain → ∀ p ∈ t.pieces, p.IsNumber) := by
  refine ⟨⟨fun hfinite q hq => ?_, fun hfits p hp => ?_⟩, fun p hp => ?_, fun hmoderate p hp => ?_⟩
  · exact (Piece.isFinite_narrow_iff q).mp (hfinite _ ((mem_pieces_iff h).mpr ⟨q, hq, rfl⟩))
  · obtain ⟨q, hq, rfl⟩ := (mem_pieces_iff h).mp hp
    exact (Piece.isFinite_narrow_iff q).mpr (hfits q hq)
  · obtain ⟨q, hq, rfl⟩ := (mem_pieces_iff h).mp hp
    exact Double.isNaN_narrow (isNaN_a_of_mem_outline hq)
  · obtain ⟨q, hq, rfl⟩ := (mem_pieces_iff h).mp hp
    have hradius : Double.Within 78 (Decibel.toNepers knee) :=
      hmoderate.knee.mul Decibel.within_inNepers (by decide)
    have hsound := sound_of_mem_outline hradius (fun k => hmoderate.within_knots) hq
    exact hsound.narrow (isNaN_a_of_mem_outline hq)

/-- A leg goes straight up to a point that is there twice, and the pieces are finite
nevertheless. -/
theorem isFinite_at_repeated_points :
    ∃ t : Transfer Float32,
      draw [(⟨-50.0, -50.0⟩ : Point Float), ⟨-50.0, -30.0⟩, ⟨-50.0, -30.0⟩] 3.0 0.0 = .ok t ∧
        (∀ p ∈ t.pieces, p.IsFinite) ∧ ∀ p ∈ t.pieces, p.IsNumber := by
  have haccepted : (draw [(⟨-50.0, -50.0⟩ : Point Float), ⟨-50.0, -30.0⟩, ⟨-50.0, -30.0⟩] 3.0 0.0 :
      Except SetupError (Transfer Float32)).isOk = true := by
    decide +kernel
  have hmoderate : Moderate [⟨-50.0, -50.0⟩, ⟨-50.0, -30.0⟩, ⟨-50.0, -30.0⟩] 3.0 0.0 :=
    moderate_of_fits (by decide +kernel) (by decide +kernel) (by decide +kernel)
  cases hdraw : (draw [(⟨-50.0, -50.0⟩ : Point Float), ⟨-50.0, -30.0⟩, ⟨-50.0, -30.0⟩] 3.0 0.0 :
      Except SetupError (Transfer Float32)) with
  | error e =>
    rw [hdraw] at haccepted
    cases haccepted
  | ok t =>
    obtain ⟨hfinite, -, hnumber⟩ := isFinite_iff_of_draw hdraw
    exact ⟨t, rfl, hfinite.mpr (by decide +kernel), hnumber hmoderate⟩

/-- With a very small knee a corner is finite in doubles, and too steep for singles. -/
theorem not_isFinite_of_small_knee :
    ∃ t : Transfer Float32,
      draw [(⟨-20.0, -20.0⟩ : Point Float), ⟨10.0, 0.0⟩] 1e-40 0.0 = .ok t ∧
        ∃ p ∈ t.pieces, ¬p.IsFinite := by
  have hrun : ((draw [(⟨-20.0, -20.0⟩ : Point Float), ⟨10.0, 0.0⟩] 1e-40 0.0).toOption.map
      fun t : Transfer Float32 => t.pieces.any fun p => !p.a.isFinite) = some true := by
    decide +kernel
  cases hdraw : (draw [(⟨-20.0, -20.0⟩ : Point Float), ⟨10.0, 0.0⟩] 1e-40 0.0 :
      Except SetupError (Transfer Float32)) with
  | error e =>
    rw [hdraw] at hrun
    cases hrun
  | ok t =>
    rw [hdraw] at hrun
    obtain ⟨i, hi, hp⟩ := Array.any_eq_true.mp (Option.some.inj hrun)
    refine ⟨t, rfl, t.pieces[i], Array.getElem_mem hi, fun hfinite => ?_⟩
    rw [hfinite.a] at hp
    cases hp

end Transfer

end Compander
