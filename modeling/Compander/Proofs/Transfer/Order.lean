import Compander.Proofs.Floating.Order
import Compander.Proofs.Transfer.Corners
import Compander.Proofs.Transfer.Search

/-!
# The order of the pieces

Each corner adds two pieces, one that begins at its entry and one at its exit. So the pieces of
a curve begin in order if every corner begins after the corner before and ends after its own
beginning, and then the search finds the piece for every level:

* `Corner.Forward`, `Transfer.Forward` — corners that go forward;
* `Transfer.inOrder_iff_forward` — the pieces of a curve are in order exactly if they do;
* `Corner.forward_of_pairwise`, `Transfer.inOrder_of_draw` — in exact arithmetic they always do.
  A corner takes at most half of its second leg and, of its first, at most what the corner
  before has left. That holds of points at one level too, whose legs are vertical;
* `Transfer.covers_of_inOrder`, `Transfer.covers_of_singles_inOrder` — the search is right on
  pieces in order, be they exact or singles;
* `Transfer.ordered_and_found_iff` — order and search of a curve in singles;
* `Transfer.not_inOrder_of_vertical` — a curve with a corner that goes back. In doubles the
  cosine of a right angle is not zero, and next to a vertical leg at 0 dB the rounding is larger
  than the levels it should not exceed.
-/

namespace Compander

/-! ## Corners that go forward -/

section Arithmetic

variable {W : Type} (N : Type) [WideArithmetic W] [Arithmetic N] [Precision W N]

/-- In the narrow format every corner begins no earlier than the corner before ends, or the knot
before stands, and ends no earlier than it begins; and the last knot comes after all of them. -/
def Corner.Forward (radius : W) (previous : Knot W) : List (Knot W) → Prop
  | [] => True
  | [last] => (Precision.narrow previous.x : N) ≤ Precision.narrow last.x
  | corner :: next :: rest =>
    let c := round radius previous corner next
    (Precision.narrow previous.x : N) ≤ Precision.narrow c.entry.x ∧
      (Precision.narrow c.entry.x : N) ≤ Precision.narrow c.exit.x ∧
        Forward radius c.exit (next :: rest)

/-- The corners of a curve through some knots, of which the first is the tail. -/
def Transfer.Forward (radius : W) : List (Knot W) → Prop
  | [] => True
  | tail :: rest => Corner.Forward N radius tail rest

instance Corner.decidableForward (radius : W) :
    ∀ (previous : Knot W) (ks : List (Knot W)), Decidable (Corner.Forward N radius previous ks)
  | _, [] => inferInstanceAs (Decidable True)
  | _, [_] => inferInstanceAs (Decidable (_ ≤ _))
  | previous, corner :: next :: rest =>
    have := decidableForward radius (round radius previous corner next).exit (next :: rest)
    inferInstanceAs (Decidable (_ ∧ _ ∧ _))

instance Transfer.decidableForward (radius : W) :
    ∀ ks : List (Knot W), Decidable (Transfer.Forward N radius ks)
  | [] => inferInstanceAs (Decidable True)
  | tail :: rest => inferInstanceAs (Decidable (Corner.Forward N radius tail rest))

variable {N}

/-- The pieces after a knot begin in order exactly if the corners go forward, each compared
with the one before. -/
theorem Corner.isChain_iff_forward (radius : W) (previous : Knot W) (ks : List (Knot W)) :
    ((Precision.narrow previous.x : N) ::
      (pieces radius previous ks).map fun p : Piece N => p.x).IsChain (· ≤ ·) ↔
        Forward N radius previous ks := by
  induction ks generalizing previous with
  | nil =>
    rw [pieces, Forward, List.map_nil]
    exact iff_of_true (List.isChain_singleton _) trivial
  | cons corner rest ih =>
    cases rest with
    | nil =>
      rw [pieces, Forward, List.map_singleton, List.isChain_pair]
      rfl
    | cons next rest =>
      rw [pieces, Forward, List.map_cons, List.map_cons, List.isChain_cons_cons,
        List.isChain_cons_cons, ← ih]
      rfl

end Arithmetic

/-! ## The pieces of a curve -/

namespace Transfer

section Arithmetic

variable {W N : Type} [WideArithmetic W] [Precision W N]

/-- A curve is made of a level tail at its first knot and the pieces after it, of which there
is at least one. -/
theorem exists_pieces_eq [Memory] {points : List (Point W)} {knee gain : W} {t : Transfer N}
    (h : draw points knee gain = .ok t) :
    ∃ tail k ks first rest, knots points knee gain = tail :: k :: ks ∧
      (Corner.pieces (Decibel.toNepers knee) tail (k :: ks) : List (Piece N)) = first :: rest ∧
      t.pieces = (Piece.flat tail :: first :: rest).toArray ∧ t.floor = first := by
  obtain ⟨hpoints, rfl⟩ := of_draw h
  obtain ⟨lowest, k, ks, -, hmerged⟩ := Knot.exists_mergeStraight_eq knee hpoints
  obtain ⟨tail, k, ks, hknots⟩ : ∃ tail k ks, knots points knee gain = tail :: k :: ks :=
    ⟨_, _, _, by rw [knots, hmerged, List.map_cons, List.map_cons]⟩
  obtain ⟨first, rest, hpieces⟩ : ∃ first rest,
      (Corner.pieces (Decibel.toNepers knee) tail (k :: ks) : List (Piece N)) = first :: rest := by
    cases ks with
    | nil => exact ⟨_, _, rfl⟩
    | cons q ks => exact ⟨_, _, rfl⟩
  have houtline : (outline (Decibel.toNepers knee) (knots points knee gain) : List (Piece N)) =
      Piece.flat tail :: first :: rest := by
    rw [hknots, outline, hpieces]
  refine ⟨tail, k, ks, first, rest, hknots, hpieces, ?_, ?_⟩
  · rw [ofPieces, houtline]
  · rw [ofPieces, houtline, List.getD_cons_succ, List.getD_cons_zero]

/-- The pieces of a curve begin in order exactly if its corners go forward, as long as the order
of narrow numbers is transitive. -/
theorem inOrder_iff_forward [Memory] [Arithmetic N] (htrans : ∀ x y z : N, x ≤ y → y ≤ z → x ≤ z)
    {points : List (Point W)} {knee gain : W} {t : Transfer N} (h : draw points knee gain = .ok t) :
    t.InOrder ↔ Forward N (Decibel.toNepers knee) (knots points knee gain) := by
  obtain ⟨tail, k, ks, first, rest, hknots, hpieces, ht, -⟩ := exists_pieces_eq h
  have htransitive : IsTrans N (· ≤ ·) := ⟨htrans⟩
  rw [hknots, Forward, ← Corner.isChain_iff_forward, hpieces, List.isChain_iff_pairwise, InOrder,
    ht]
  exact (List.pairwise_map (l := Piece.flat tail :: first :: rest)).symm

/-- A curve has a piece besides its tail, so there is always one to find. -/
theorem two_le_size [Memory] {points : List (Point W)} {knee gain : W} {t : Transfer N}
    (h : draw points knee gain = .ok t) : 2 ≤ t.pieces.size := by
  obtain ⟨tail, k, ks, first, rest, -, -, ht, -⟩ := exists_pieces_eq h
  rw [ht, List.size_toArray, List.length_cons, List.length_cons]
  omega

end Arithmetic

end Transfer

/-! ## Exact corners -/

/-- What stands in order after a knot stands in order after a knot that has been moved on, but
not past the next one. -/
theorem Knot.pairwise_of_moved {corner moved next : Knot ℝ} {rest : List (Knot ℝ)}
    (hnext : moved.x ≤ next.x)
    (h : (corner :: next :: rest).Pairwise fun p q => p.x ≤ q.x) :
    (moved :: next :: rest).Pairwise fun p q => p.x ≤ q.x := by
  have htail := (List.pairwise_cons.mp h).2
  exact List.pairwise_cons.mpr
    ⟨fun k hk => hnext.trans (le_of_mem .le_levels htail k hk), htail⟩

/-- **No overlap.** In exact arithmetic the corners after a knot go forward. The knot may be one
that the rounding has moved, as long as the next lies not before it. -/
theorem Corner.forward_of_pairwise {radius : ℝ} (hradius : 0 < radius) (previous : Knot ℝ)
    (ks : List (Knot ℝ)) (h : (previous :: ks).Pairwise fun p q => p.x ≤ q.x) :
    Forward ℝ radius previous ks := by
  induction ks generalizing previous with
  | nil => exact trivial
  | cons corner rest ih =>
    obtain ⟨hprevious, hcorner⟩ := List.pairwise_cons.mp h
    have hfirst : previous.x ≤ corner.x := hprevious corner List.mem_cons_self
    cases rest with
    | nil => exact hfirst
    | cons next rest =>
      have hsecond : corner.x ≤ next.x := (List.pairwise_cons.mp hcorner).1 next List.mem_cons_self
      have hwithin := round_within hradius hfirst hsecond
      exact ⟨hwithin.previous_le, hwithin.entry_le.trans hwithin.le_exit,
        ih _ (Knot.pairwise_of_moved hwithin.exit_le hcorner)⟩

/-- The pieces after a knot begin in order, none of them before the knot, by induction along
the corners. -/
theorem Corner.pieces_inOrder {radius : ℝ} (hradius : 0 < radius) (previous : Knot ℝ)
    (ks : List (Knot ℝ)) (h : (previous :: ks).Pairwise fun p q => p.x ≤ q.x) :
    (∀ p ∈ (pieces radius previous ks : List (Piece ℝ)), previous.x ≤ p.x) ∧
      (pieces radius previous ks : List (Piece ℝ)).Pairwise fun p q => p.x ≤ q.x := by
  have hchain := (isChain_iff_forward radius previous ks).mpr (forward_of_pairwise hradius _ _ h)
  obtain ⟨hafter, hordered⟩ := List.pairwise_cons.mp hchain.pairwise
  exact ⟨List.forall_mem_map.mp hafter, List.pairwise_map.mp hordered⟩

namespace Transfer

variable {points : List (Point ℝ)} {knee gain : ℝ} {t : Transfer ℝ}

/-- In exact arithmetic the pieces of every curve begin in order, those of vertical legs
included. -/
theorem inOrder_of_draw [Memory] (h : draw points knee gain = .ok t) : t.InOrder := by
  obtain ⟨hpoints, hknee, hordered, -⟩ := draw_eq_ok_iff.mp h
  obtain ⟨tail, k, ks, -, -, hknots, -⟩ := exists_pieces_eq h
  have hlevels := Knot.pairwise_knots .le_levels hpoints hknee hordered gain
  rw [inOrder_iff_forward (fun _ _ _ => le_trans) h, hknots]
  rw [hknots] at hlevels
  exact Corner.forward_of_pairwise (Decibel.toNepers_pos hknee) tail (k :: ks) hlevels

/-! ## Finding a piece -/

section Finding

variable {N : Type} [Arithmetic N] {s : Transfer N}

/-- Of pieces in order, an earlier one begins below a level if a later one does, as long as the
order is transitive. -/
theorem InOrder.below (h : s.InOrder) {level : N}
    (htrans : ∀ x y : N, x ≤ y → y < level → x < level) (i j : Nat) (p q : Piece N) (hij : i ≤ j)
    (hp : s.pieces[i]? = some p) (hq : s.pieces[j]? = some q) (hlt : q.x < level) :
    p.x < level := by
  rcases hij.eq_or_lt with rfl | hij
  · rw [hp] at hq
    obtain rfl := Option.some.inj hq
    exact hlt
  · obtain ⟨hi, rfl⟩ := Array.getElem?_eq_some_iff.mp hp
    obtain ⟨hj, rfl⟩ := Array.getElem?_eq_some_iff.mp hq
    exact htrans _ _ (List.pairwise_iff_getElem.mp h i j hi hj hij) hlt

end Finding

/-- In exact arithmetic the search is right on pieces in order, whatever the level is. -/
theorem covers_of_inOrder (hsize : 2 ≤ t.pieces.size) (h : t.InOrder) (level : ℝ) :
    t.Covers level (t.index level) :=
  covers_index hsize (h.below fun _ _ hle hlt => hle.trans_lt hlt)

/-- In singles too the search is right on pieces in order, also for a level that is not a
number. -/
theorem covers_of_singles_inOrder {s : Transfer Float32} (hsize : 2 ≤ s.pieces.size)
    (h : s.InOrder) (level : Float32) : s.Covers level (s.index level) :=
  covers_index hsize (h.below fun _ _ hle hlt => Single.lt_of_le_of_lt hle hlt)

/-- **Order and search.** The pieces of a curve in singles begin in order, and the search finds
the piece for every level, exactly if the corners go forward as they are computed. -/
theorem ordered_and_found_iff [Memory] {points : List (Point Float)} {knee gain : Float}
    {s : Transfer Float32} (h : draw points knee gain = .ok s) :
    (s.InOrder ∧ ∀ level, s.Covers level (s.index level)) ↔
      Forward Float32 (Decibel.toNepers knee) (knots points knee gain) := by
  rw [← inOrder_iff_forward (fun _ _ _ => Single.le_trans) h]
  exact ⟨fun hmeets => hmeets.1,
    fun hordered => ⟨hordered, covers_of_singles_inOrder (two_le_size h) hordered⟩⟩

/-- Between -70 dB and -60 dB the gain goes up by four decibels for each decibel of input. -/
theorem ordered_and_found_at_steep :
    ∃ s : Transfer Float32,
      draw [(⟨-70.0, -70.0⟩ : Point Float), ⟨-60.0, -20.0⟩] 0.01 0.0 = .ok s ∧
        s.InOrder ∧ ∀ level, s.Covers level (s.index level) := by
  have haccepted : (draw [(⟨-70.0, -70.0⟩ : Point Float), ⟨-60.0, -20.0⟩] 0.01 0.0 :
      Except SetupError (Transfer Float32)).isOk = true := by
    decide +kernel
  cases hdraw : (draw [(⟨-70.0, -70.0⟩ : Point Float), ⟨-60.0, -20.0⟩] 0.01 0.0 :
      Except SetupError (Transfer Float32)) with
  | error e =>
    rw [hdraw] at haccepted
    cases haccepted
  | ok s => exact ⟨s, rfl, (ordered_and_found_iff hdraw).mpr (by decide +kernel)⟩

/-- In doubles the cosine of a right angle is not zero. Next to a leg straight up at 0 dB a
piece then begins above 0 dB and the next one below, and at 0 dB the search passes over the
first of them. -/
theorem not_inOrder_of_vertical :
    ∃ t : Transfer Float32,
      draw [(⟨0.0, -20.0⟩ : Point Float), ⟨0.0, 0.0⟩, ⟨20.0, 0.0⟩] 0.01 0.0 = .ok t ∧
        ¬t.InOrder ∧ ¬t.Covers 0.0 (t.index 0.0) := by
  have hrun : ((draw [(⟨0.0, -20.0⟩ : Point Float), ⟨0.0, 0.0⟩, ⟨20.0, 0.0⟩] 0.01 0.0).toOption.map
      fun t : Transfer Float32 =>
        (decide t.InOrder, t.index 0.0, t.pieces[2]?.any fun p : Piece Float32 => p.x < 0.0)) =
      some (false, 3, false) := by
    decide +kernel
  cases hdraw : (draw [(⟨0.0, -20.0⟩ : Point Float), ⟨0.0, 0.0⟩, ⟨20.0, 0.0⟩] 0.01 0.0 :
      Except SetupError (Transfer Float32)) with
  | error e =>
    rw [hdraw] at hrun
    cases hrun
  | ok t =>
    rw [hdraw] at hrun
    obtain ⟨hordered, hindex, hbelow⟩ := by
      simpa only [Prod.mk.injEq] using Option.some.inj hrun
    refine ⟨t, rfl, of_decide_eq_false hordered, fun hcovers => ?_⟩
    rw [hindex] at hcovers
    obtain ⟨q, hq, hlt⟩ := hcovers.before 1 le_rfl (by omega)
    rw [hq, Option.any_some, decide_eq_false_iff_not] at hbelow
    exact hbelow hlt

end Transfer

end Compander
