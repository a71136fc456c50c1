import Compander.Proofs.Transfer.Order

/-!
# The layout of a curve

Which pieces a curve has depends on how many knots are left after merging, and on nothing that is
computed with them. Whatever the arithmetic answers, an inner knot makes two pieces and both ends
make one, so there is a piece after the tail, and the search stays among the pieces:

* `Corner.length_pieces`, `Transfer.size_pieces` — there are two pieces for each corner, and two
  more;
* `Corner.exists_pieces_of_inner` — which two belong to a corner;
* `Transfer.LaidOut`, `Transfer.laidOut_of_draw` — the layout of a drawn curve;
* `Transfer.getElem?_index` — the search answers with a piece that there is;
* `Transfer.InOrder.scan_eq` — a single that is a number lies at or above what does not begin
  below it;
* `Transfer.laidOut_and_found` — layout and search together.

That a search stays in range needs no order at all, so a sample always meets some piece, even on a
curve whose pieces were rounded out of order or for a level that is not a number.
-/

namespace Compander

variable {W N : Type} [WideArithmetic W] [Precision W N]

/-! ## The pieces of the corners -/

namespace Corner

/-- Each inner knot makes two pieces, and the last one more, by induction on the knots. -/
theorem length_pieces (radius : W) (previous k : Knot W) (ks : List (Knot W)) :
    (pieces radius previous (k :: ks) : List (Piece N)).length = 2 * ks.length + 1 := by
  induction ks generalizing previous k with
  | nil => rfl
  | cons next rest ih =>
    rw [pieces, List.length_cons, List.length_cons, ih, List.length_cons]
    ring

/-- The last knot makes the last piece, which is level above it. -/
theorem getElem?_pieces_last (radius : W) (previous k : Knot W) (ks : List (Knot W)) :
    ∃ last, (k :: ks)[ks.length]? = some last ∧
      (pieces radius previous (k :: ks) : List (Piece N))[2 * ks.length]? =
        some (Piece.flat last) := by
  induction ks generalizing previous k with
  | nil => exact ⟨k, rfl, rfl⟩
  | cons next rest ih =>
    obtain ⟨last, hlast, hpiece⟩ := ih (round radius previous k next).exit next
    exact ⟨last, hlast, hpiece⟩

/-- An inner knot makes a parabola, where it is rounded after some knot, and a straight piece with
the slope of the leg that follows. -/
theorem exists_pieces_of_inner (radius : W) (previous : Knot W) (ks : List (Knot W)) {j : Nat}
    {corner next : Knot W} (hcorner : ks[j]? = some corner) (hnext : ks[j + 1]? = some next) :
    ∃ before : Knot W,
      (pieces radius previous ks : List (Piece N))[2 * j]? =
        some (Piece.ofKnot (round radius before corner next).entry
          (round radius before corner next).a (round radius before corner next).b) ∧
      (pieces radius previous ks : List (Piece N))[2 * j + 1]? =
        some (Piece.ofKnot (round radius before corner next).exit 0.0 (corner.slope next)) := by
  induction j generalizing previous ks with
  | zero =>
    obtain ⟨rest, rfl⟩ : ∃ rest, ks = corner :: next :: rest := by
      match ks with
      | [] => cases hcorner
      | [_] => cases hnext
      | k :: k' :: rest =>
        obtain rfl := Option.some.inj hcorner
        obtain rfl := Option.some.inj hnext
        exact ⟨rest, rfl⟩
    exact ⟨previous, rfl, rfl⟩
  | succ j ih =>
    match ks with
    | [] => cases hcorner
    | [_] => cases hnext
    | k :: k' :: rest => exact ih (round radius previous k k').exit (k' :: rest) hcorner hnext

end Corner

namespace Transfer

variable {points : List (Point W)} {knee gain : W} {t : Transfer N}

/-! ## The pieces of a curve -/

/-- A curve has two pieces for each knot but two, and one for each of these. -/
theorem size_pieces [Memory] (h : draw points knee gain = .ok t) :
    t.pieces.size + 2 = 2 * (knots points knee gain).length := by
  obtain ⟨tail, k, ks, first, rest, hknots, hpieces, ht, -⟩ := exists_pieces_eq h
  have hlength := Corner.length_pieces (N := N) (Decibel.toNepers knee) tail k ks
  rw [hpieces] at hlength
  rw [ht, hknots, List.size_toArray, List.length_cons, hlength, List.length_cons,
    List.length_cons]
  ring

/-- The floor of a curve is its second piece, which begins at the lowest knot that is left or
before it. -/
theorem getElem?_floor [Memory] (h : draw points knee gain = .ok t) :
    t.pieces[1]? = some t.floor := by
  obtain ⟨tail, k, ks, first, rest, -, -, ht, rfl⟩ := exists_pieces_eq h
  rw [getElem?_succ ht, List.getElem?_cons_zero]

section Layout

variable [Arithmetic N]

/-- What the pieces of a curve through some knots are: a level tail, for each inner knot a
parabola that rounds it and a straight piece, and a level last piece. -/
structure LaidOut (radius : W) (ks : List (Knot W)) (t : Transfer N) : Prop where
  /-- there are two knots at least -/
  two_le_length : 2 ≤ ks.length
  /-- two pieces for each of them but two -/
  size_eq : t.pieces.size = 2 * ks.length - 2
  /-- the first piece is level -/
  tail_level : ∃ p : Piece N, t.pieces[0]? = some p ∧ p.a = 0.0 ∧ p.b = 0.0
  /-- the last piece is level -/
  last_level : ∃ p : Piece N, t.pieces[2 * ks.length - 3]? = some p ∧ p.a = 0.0 ∧ p.b = 0.0
  /-- an inner knot has a parabola from one leg to the other and a straight piece after it -/
  pairs : ∀ (j : Nat) (corner next : Knot W), ks[j + 1]? = some corner → ks[j + 2]? = some next →
    ∃ (previous : Knot W) (curve leg : Piece N), t.pieces[2 * j + 1]? = some curve ∧
      t.pieces[2 * j + 2]? = some leg ∧ leg.a = 0.0 ∧
      curve = Piece.ofKnot (Corner.round radius previous corner next).entry
        (Corner.round radius previous corner next).a (Corner.round radius previous corner next).b

/-- **Layout.** A drawn curve is laid out along its knots, as long as zero stays zero when it is
narrowed. -/
theorem laidOut_of_draw [Memory] (hzero : (Precision.narrow (0.0 : W) : N) = 0.0)
    (h : draw points knee gain = .ok t) :
    LaidOut (Decibel.toNepers knee) (knots points knee gain) t := by
  have hlevel (k : Knot W) : (Piece.flat k : Piece N).a = 0.0 ∧ (Piece.flat k : Piece N).b = 0.0 :=
    ⟨hzero, hzero⟩
  have hsize := size_pieces h
  obtain ⟨tail, k, ks, first, rest, hknots, hpieces, ht, -⟩ := exists_pieces_eq h
  rw [hknots, List.length_cons, List.length_cons] at hsize
  have hafter (i : Nat) : t.pieces[i + 1]? =
      (Corner.pieces (Decibel.toNepers knee) tail (k :: ks) : List (Piece N))[i]? := by
    rw [hpieces]
    exact getElem?_succ ht i
  rw [hknots]
  refine ⟨?_, ?_, ⟨Piece.flat tail, ?_, hlevel tail⟩, ?_, fun j corner next hcorner hnext => ?_⟩
  · rw [List.length_cons, List.length_cons]
    omega
  · rw [List.length_cons, List.length_cons]
    omega
  · rw [ht]
    rfl
  · obtain ⟨last, -, hlast⟩ :=
      Corner.getElem?_pieces_last (N := N) (Decibel.toNepers knee) tail k ks
    rw [← hafter] at hlast
    refine ⟨Piece.flat last, ?_, hlevel last⟩
    rw [List.length_cons, List.length_cons, ← hlast]
    congr 1
  · obtain ⟨previous, hcurve, hleg⟩ :=
      Corner.exists_pieces_of_inner (N := N) (Decibel.toNepers knee) tail (k :: ks) hcorner hnext
    rw [← hafter] at hcurve hleg
    exact ⟨previous, _, _, hcurve, hleg, hzero, rfl⟩

/-- The search answers with a piece after the tail, and that is the piece that is evaluated. -/
theorem getElem?_index (hsize : 2 ≤ t.pieces.size) (level : N) :
    1 ≤ t.index level ∧ t.index level < t.pieces.size ∧
      t.pieces[t.index level]? = some (t.covering level) := by
  have hle := Bisection.count_le (fun i => t.pieces[i + 2]?.any (·.x < level)) (t.pieces.size - 2)
  have hlt : t.index level < t.pieces.size := by
    rw [index]
    omega
  refine ⟨Nat.le_add_right 1 _, hlt, ?_⟩
  rw [covering, Array.getD_eq_getD_getElem?, Array.getElem?_eq_getElem hlt, Option.getD_some]

end Layout

/-! ## Singles -/

/-- The first item of which something is true is the first of which the same is. -/
theorem findIdx_congr {α : Type} {p q : α → Bool} {items : List α} (h : ∀ a ∈ items, p a = q a) :
    items.findIdx p = items.findIdx q := by
  induction items with
  | nil => rfl
  | cons a items ih =>
    obtain ⟨ha, hitems⟩ := List.forall_mem_cons.mp h
    rw [List.findIdx_cons, List.findIdx_cons, ha, ih hitems]

variable {s : Transfer Float32}

/-- Pieces in order begin at numbers, from the second piece after the tail on, as they have
been compared. -/
theorem InOrder.isNaN_eq_false (h : s.InOrder) {p : Piece Float32}
    (hp : p ∈ s.pieces.toList.drop 2) : p.x.isNaN = false := by
  rw [InOrder] at h
  cases hpieces : s.pieces.toList with
  | nil =>
    rw [hpieces] at hp
    cases hp
  | cons tail rest =>
    rw [hpieces] at hp h
    have hafter : p ∈ rest := (List.drop_sublist 1 rest).subset hp
    exact (Single.isNaN_of_le ((List.pairwise_cons.mp h).1 p hafter)).2

/-- On pieces in order the search answers as trying piece after piece does, for numbers and
for what is none. -/
theorem InOrder.index_eq_scan (h : s.InOrder) (level : Float32) :
    s.index level = s.scan level := by
  rcases Nat.lt_or_ge s.pieces.size 2 with hfew | hsize
  · -- there is nothing to search
    have hnone : s.pieces.size - 2 = 0 := by omega
    have hdrop : s.pieces.toList.drop 2 = [] :=
      List.drop_eq_nil_of_le (by rw [Array.length_toList]; omega)
    rw [index, scan, hnone, hdrop]
    rfl
  · exact (covers_of_singles_inOrder hsize h level).eq_scan

/-- Among numbers, what does not begin below a level begins at or above it, so the test can be
turned around. -/
theorem InOrder.scan_eq (h : s.InOrder) {level : Float32} (hlevel : level.isNaN = false) :
    s.scan level = 1 + (s.pieces.toList.drop 2).findIdx fun p => decide (level ≤ p.x) := by
  have hpieces : ∀ p ∈ s.pieces.toList.drop 2, (!decide (p.x < level)) = decide (level ≤ p.x) := by
    intro p hp
    have hle : ¬p.x < level ↔ level ≤ p.x :=
      ⟨Single.le_of_not_lt (h.isNaN_eq_false hp) hlevel, Single.not_lt_of_le⟩
    rw [← decide_not, decide_eq_decide]
    exact hle
  rw [scan, findIdx_congr hpieces]

/-- **Layout and search.** Whatever the arithmetic answers, a drawn curve is laid out along the
knots that merging leaves, its floor is its second piece, and for every level the search asks only
about pieces that there are and answers with one of them, which is the piece that is evaluated.
On pieces in order, in singles, the search answers as trying piece after piece does. For a level
that is a number that is the first piece after the tail whose successor begins at or above the
level, or the last piece. -/
theorem laidOut_and_found [Memory] [Arithmetic N] (hzero : (Precision.narrow (0.0 : W) : N) = 0.0)
    (h : draw points knee gain = .ok t) :
    (LaidOut (Decibel.toNepers knee) (knots points knee gain) t ∧
      (knots points knee gain).length = (Knot.mergeStraight (Knot.ofPoints knee points)).length ∧
      t.pieces[1]? = some t.floor) ∧
    (∀ level : N, 1 ≤ t.index level ∧ t.index level < t.pieces.size ∧
      t.pieces[t.index level]? = some (t.covering level)) ∧
    (∀ (level : N) (below : Nat → Bool),
      (∀ (i : Nat) (hi : i + 2 < t.pieces.size), below i = decide (t.pieces[i + 2].x < level)) →
        t.index level = 1 + Bisection.count below (t.pieces.size - 2)) ∧
    ∀ s : Transfer Float32, s.InOrder → ∀ level : Float32,
      s.index level = s.scan level ∧
        (level.isNaN = false →
          s.index level = 1 + (s.pieces.toList.drop 2).findIdx fun p => decide (level ≤ p.x)) := by
  refine ⟨⟨laidOut_of_draw hzero h, List.length_map .., getElem?_floor h⟩,
    getElem?_index (two_le_size h), fun level below hbelow => index_eq_count hbelow,
    fun s hordered level => ?_⟩
  have hscan := hordered.index_eq_scan level
  exact ⟨hscan, fun hlevel => hscan.trans (hordered.scan_eq hlevel)⟩

/-- A curve in singles, with two inner knots and a steep leg from one to the other. -/
theorem laidOut_and_found_at_steep :
    ∃ t : Transfer Float32,
      draw [(⟨-70.0, -70.0⟩ : Point Float), ⟨-60.0, -20.0⟩] 0.01 0.0 = .ok t ∧
        (Precision.narrow (0.0 : Float) : Float32) = 0.0 ∧
        LaidOut (Decibel.toNepers 0.01)
          (knots [(⟨-70.0, -70.0⟩ : Point Float), ⟨-60.0, -20.0⟩] 0.01 0.0) t ∧
        (∀ level : Float32, 1 ≤ t.index level ∧ t.index level < t.pieces.size) ∧
        t.InOrder ∧ ∀ level : Float32, t.index level = t.scan level := by
  have hzero : (Precision.narrow (0.0 : Float) : Float32) = 0.0 := by decide +kernel
  obtain ⟨t, ht⟩ : ∃ t : Transfer Float32,
      draw [(⟨-70.0, -70.0⟩ : Point Float), ⟨-60.0, -20.0⟩] 0.01 0.0 = .ok t := by
    refine exists_draw_iff.mpr ⟨List.cons_ne_nil _ _, ?_, ?_, ?_, ?_, .of_length rfl rfl⟩
    all_goals decide +kernel
  have hordered : t.InOrder :=
    (inOrder_iff_forward (fun _ _ _ => Single.le_trans) ht).mpr (by decide +kernel)
  obtain ⟨⟨hlaid, -, -⟩, hindex, -, hfound⟩ := laidOut_and_found hzero ht
  refine ⟨t, ht, hzero, hlaid, fun level => ?_, hordered, fun level => ?_⟩
  · obtain ⟨hpos, hlt, -⟩ := hindex level
    exact ⟨hpos, hlt⟩
  · exact (hfound t hordered level).1

end Transfer

end Compander
