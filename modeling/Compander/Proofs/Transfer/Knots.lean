import Compander.Proofs.Exact.Reals
import Compander.Proofs.Parameters.Checks

/-!
# Knots in order

From the points of a curve to the knots that it is drawn through. Some of that holds whatever
the arithmetic is:

* `Transfer.of_draw` — a curve that is drawn has points, and is made of the pieces through its
  knots;
* `Knot.exists_ofPoints_eq`, `Knot.exists_mergeStraight_eq` — there is a tail, and a knot after
  it, before and after merging;
* `Knot.mergeStraight_sublist` — merging takes knots away and does nothing else.

In exact arithmetic points are refused if one lies left of the one before, and from there on
every step keeps the order:

* `Transfer.draw_eq_ok_iff` — which curves are drawn;
* `Knot.asked` — the knots that the points ask for, unity gain at 0 dB among them;
* `Knot.mem_withUnity_iff` — these are the knots of a curve before its tail;
* `Knot.pairwise_ofPoints`, `Knot.pairwise_knots` — knots stand in order, strictly so if the
  points do.
-/

namespace Compander

section Arithmetic

variable {W N : Type} [WideArithmetic W] [Precision W N]

/-- A curve that is drawn has points, and is made of the pieces through its knots. -/
theorem Transfer.of_draw [Memory] {points : List (Point W)} {knee gain : W} {t : Transfer N}
    (h : draw points knee gain = .ok t) :
    points ≠ [] ∧
      t = ofPieces (W := W) (outline (Decibel.toNepers knee) (knots points knee gain)) := by
  obtain ⟨hpoints, -, -, -, -, -, ht⟩ := draw_iff.mp h
  exact ⟨hpoints, ht⟩

namespace Knot

theorem withUnity_ne_nil {ks : List (Knot W)} (h : ks ≠ []) : withUnity ks ≠ [] := by
  rw [withUnity]
  split
  · exact h
  · exact List.append_ne_nil_of_right_ne_nil _ (List.cons_ne_nil _ _)

/-- The tail stands two knees below the lowest knot, at its gain, so the curve begins
level. -/
theorem exists_ofPoints_eq (knee : W) {points : List (Point W)} (h : points ≠ []) :
    ∃ lowest rest, withUnity (atPoints points) = lowest :: rest ∧
      ofPoints knee points = ⟨lowest.x - 2.0 * knee, lowest.y⟩ :: lowest :: rest := by
  have hne : withUnity (atPoints points) ≠ [] :=
    withUnity_ne_nil fun hnil => h (List.map_eq_nil_iff.mp hnil)
  obtain ⟨lowest, rest, hknots⟩ := List.exists_cons_of_ne_nil hne
  exact ⟨lowest, rest, hknots, by rw [ofPoints, hknots, withTail]⟩

/-! ## Merging -/

theorem mergeFrom_sublist (p q : Knot W) (rest : List (Knot W)) :
    (mergeFrom p q rest).Sublist (p :: q :: rest) := by
  induction rest generalizing p q with
  | nil => exact List.Sublist.refl _
  | cons r rest ih =>
    rw [mergeFrom]
    split
    · exact (ih p r).trans (((List.Sublist.refl (r :: rest)).cons q).cons_cons p)
    · exact (ih q r).cons_cons p

/-- Merging leaves at least two knots, the first of them in its place and the last one too. -/
theorem exists_mergeFrom_eq (p q : Knot W) (rest : List (Knot W)) :
    ∃ k ks, mergeFrom p q rest = p :: k :: ks := by
  induction rest generalizing p q with
  | nil => exact ⟨q, [], rfl⟩
  | cons r rest ih =>
    rw [mergeFrom]
    split
    · exact ih p r
    · obtain ⟨k, ks, hks⟩ := ih q r
      exact ⟨q, k :: ks, by rw [hks]⟩

theorem mergeStraight_sublist (ks : List (Knot W)) : (mergeStraight ks).Sublist ks := by
  unfold mergeStraight
  split
  · exact mergeFrom_sublist _ _ _
  · exact List.Sublist.refl _

/-- The tail is left, and at least one knot after it, though the lowest knot may be gone. -/
theorem exists_mergeStraight_eq (knee : W) {points : List (Point W)} (h : points ≠ []) :
    ∃ lowest k ks, (withUnity (atPoints points)).head? = some lowest ∧
      mergeStraight (ofPoints knee points) =
        ⟨lowest.x - 2.0 * knee, lowest.y⟩ :: k :: ks := by
  obtain ⟨lowest, rest, hknots, hall⟩ := exists_ofPoints_eq knee h
  obtain ⟨k, ks, hks⟩ := exists_mergeFrom_eq ⟨lowest.x - 2.0 * knee, lowest.y⟩ lowest rest
  exact ⟨lowest, k, ks, by rw [hknots, List.head?_cons], by rw [hall, mergeStraight, hks]⟩

/-! ## How many there are -/

theorem length_withUnity_le (ks : List (Knot W)) : (withUnity ks).length ≤ ks.length + 1 := by
  rw [withUnity]
  split
  · exact Nat.le_succ _
  · have hsplit := congrArg List.length
      (List.takeWhile_append_dropWhile (p := fun k => decide (k.x < 0.0)) (l := ks))
    rw [List.length_append] at hsplit
    rw [List.length_append, List.length_cons]
    omega

/-- There is a knot for each point, one at unity gain and one at the tail. -/
theorem length_ofPoints_le (knee : W) (points : List (Point W)) :
    (ofPoints knee points).length ≤ points.length + 2 := by
  have hunity := length_withUnity_le (atPoints points)
  rw [atPoints, List.length_map] at hunity
  rw [ofPoints, atPoints]
  cases hknots : withUnity (points.map fun p => (⟨p.input, p.output - p.input⟩ : Knot W)) with
  | nil => exact Nat.zero_le _
  | cons first rest =>
    rw [hknots, List.length_cons] at hunity
    rw [withTail, List.length_cons, List.length_cons]
    omega

end Knot

namespace Transfer

variable {points : List (Point W)} {knee gain : W}

theorem length_knots_le : (knots points knee gain).length ≤ points.length + 2 := by
  rw [knots, List.length_map]
  exact (Knot.mergeStraight_sublist _).length_le.trans (Knot.length_ofPoints_le knee points)

/-- There is room for a curve if there is for the longest one through as many points. -/
theorem Fits.of_length [Memory] (hknots : Memory.hasRoom .knots (points.length + 2) = true)
    (hpieces : Memory.hasRoom .pieces (2 * (points.length + 2)) = true) :
    Fits points knee gain :=
  ⟨hknots, Memory.hasRoom_of_le (Nat.mul_le_mul_left 2 length_knots_le) hpieces⟩

end Transfer

end Arithmetic

variable {points : List (Point ℝ)} {knee gain : ℝ}

/-! ## Accepted points -/

theorem zero_literal : (0.0 : ℝ) = 0 := by
  norm_num

/-- Points are in order if their inputs are, each to the next and so each to all later
ones. -/
theorem Point.inOrder_iff (points : List (Point ℝ)) :
    InOrder points ↔ points.Pairwise (fun p q => p.input ≤ q.input) := by
  rw [← List.pairwise_map (R := (· ≤ ·)), ← List.isChain_iff_pairwise, List.isChain_map, InOrder]
  simp only [not_lt]

/-- Which curves are drawn: through at least one point, with a positive knee, of points in
order, if there is room for them. -/
theorem Transfer.draw_eq_ok_iff [Memory] {t : Transfer ℝ} :
    draw points knee gain = .ok t ↔
      points ≠ [] ∧ 0 < knee ∧ points.Pairwise (fun p q => p.input ≤ q.input) ∧
        Fits points knee gain ∧
          t = ofPieces (W := ℝ)
            (outline (Decibel.toNepers knee) (knots points knee gain)) := by
  rw [draw_iff, Point.inOrder_iff, zero_literal]
  constructor
  · rintro ⟨hpoints, ⟨-, hknee⟩, -, -, hordered, hfits⟩
    exact ⟨hpoints, hknee, hordered, hfits⟩
  · rintro ⟨hpoints, hknee, hordered, hfits⟩
    -- every number is finite
    exact ⟨hpoints, ⟨rfl, hknee⟩, rfl, fun _ _ => rfl, hordered, hfits⟩

theorem Transfer.exists_draw_eq [Memory] (hpoints : points ≠ []) (hknee : 0 < knee)
    (h : points.Pairwise fun p q => p.input ≤ q.input) (gain : ℝ)
    (hfits : Fits points knee gain) :
    ∃ t : Transfer ℝ, draw points knee gain = .ok t :=
  ⟨_, draw_eq_ok_iff.mpr ⟨hpoints, hknee, h, hfits, rfl⟩⟩

/-! ## Orders of levels -/

/-- What the orders `≤` and `<` of levels have in common. -/
structure IsLevelOrder (R : ℝ → ℝ → Prop) : Prop where
  /-- it holds of a lower and a higher level -/
  of_lt : ∀ {x y : ℝ}, x < y → R x y
  /-- it holds of no higher and lower level -/
  le : ∀ {x y : ℝ}, R x y → x ≤ y
  /-- it is kept by a change of unit -/
  mul : ∀ {x y c : ℝ}, 0 < c → R x y → R (x * c) (y * c)

theorem IsLevelOrder.le_levels : IsLevelOrder (· ≤ ·) :=
  ⟨fun h => h.le, fun h => h, fun hc h => mul_le_mul_of_nonneg_right h hc.le⟩

theorem IsLevelOrder.lt_levels : IsLevelOrder (· < ·) :=
  ⟨fun h => h, fun h => h.le, fun hc h => mul_lt_mul_of_pos_right h hc⟩

namespace Knot

variable {R : ℝ → ℝ → Prop} {ks : List (Knot ℝ)}

/-! ## The knots that are asked for -/

/-- The knots that a list of points asks for: the gain at each point, and unity gain at 0 dB
unless there is a point at that level. -/
def asked (points : List (Point ℝ)) : Set (Knot ℝ) :=
  {k | (∃ p ∈ points, k = ⟨p.input, p.output - p.input⟩) ∨
    ((∀ p ∈ points, p.input ≠ 0) ∧ k = ⟨0, 0⟩)}

theorem any_zero_iff (ks : List (Knot ℝ)) :
    ks.any (·.x == 0.0) = true ↔ ∃ k ∈ ks, k.x = 0 := by
  rw [List.any_eq_true, zero_literal]
  simp only [beq_iff_eq]

/-- Unity gain is put in where no knot is at 0 dB, behind all knots below and before all
above. -/
theorem withUnity_of_ne (h : ∀ k ∈ ks, k.x ≠ 0) :
    withUnity ks = ks.takeWhile (fun k => decide (k.x < 0)) ++
      ⟨0, 0⟩ :: ks.dropWhile (fun k => decide (k.x < 0)) := by
  have hany : ¬ks.any (·.x == 0.0) = true := by
    rw [any_zero_iff]
    rintro ⟨k, hk, hzero⟩
    exact h k hk hzero
  rw [withUnity, if_neg hany, zero_literal]

theorem withUnity_of_eq (h : ∃ k ∈ ks, k.x = 0) : withUnity ks = ks := by
  rw [withUnity, if_pos ((any_zero_iff ks).mpr h)]

/-- Above knots that all lie below 0 dB there is unity gain, as the last knot. -/
theorem withUnity_of_neg (h : ∀ k ∈ ks, k.x < 0) : withUnity ks = ks ++ [⟨0, 0⟩] := by
  have hneg : ∀ k ∈ ks, decide (k.x < 0) = true := fun k hk => decide_eq_true (h k hk)
  rw [withUnity_of_ne fun k hk => (h k hk).ne, List.takeWhile_eq_self_iff.mpr hneg,
    List.dropWhile_eq_nil_iff.mpr hneg]

/-- Where all points lie below 0 dB the knots are the tail, those of the points, and unity gain
above them. -/
theorem ofPoints_of_neg (knee : ℝ) (h : ∀ p ∈ points, p.input < 0) :
    ofPoints knee points = withTail knee (atPoints points ++ [⟨0, 0⟩]) := by
  have hknots : ∀ k ∈ atPoints points, k.x < 0 := List.forall_mem_map.mpr h
  rw [ofPoints, withUnity_of_neg hknots]

/-- The knots before the tail are those asked for, unity gain being asked for where nothing
else is. -/
theorem mem_withUnity_iff {k : Knot ℝ} : k ∈ withUnity (atPoints points) ↔ k ∈ asked points := by
  have hpoint : k ∈ atPoints points ↔ ∃ p ∈ points, k = ⟨p.input, p.output - p.input⟩ := by
    simp only [atPoints, List.mem_map, eq_comm]
  have hlevels : (∀ k ∈ atPoints points, k.x ≠ 0) ↔ ∀ p ∈ points, p.input ≠ 0 :=
    List.forall_mem_map
  by_cases hne : ∀ k ∈ atPoints points, k.x ≠ 0
  · rw [withUnity_of_ne hne, List.mem_append, List.mem_cons, or_left_comm, ← List.mem_append,
      List.takeWhile_append_dropWhile, hpoint, or_comm]
    exact or_congr_right (iff_and_self.mpr fun _ => hlevels.mp hne)
  · have heq : ∃ k ∈ atPoints points, k.x = 0 := by
      push Not at hne
      exact hne
    rw [withUnity_of_eq heq, hpoint]
    refine (or_iff_left_of_imp ?_).symm
    rintro ⟨hpoints, -⟩
    exact absurd (hlevels.mpr hpoints) hne

/-! ## Order -/

/-- The first of ordered knots is the lowest, or one of the lowest. -/
theorem le_of_mem {p : Knot ℝ} (hR : IsLevelOrder R) (h : (p :: ks).Pairwise fun p q => R p.x q.x) :
    ∀ k ∈ p :: ks, p.x ≤ k.x :=
  List.forall_mem_cons.mpr ⟨le_rfl, fun k hk => hR.le ((List.pairwise_cons.mp h).1 k hk)⟩

/-- What is left of ordered knots after those below 0 dB lies at or above 0 dB. -/
theorem nonneg_of_mem_dropWhile (hR : IsLevelOrder R) (h : ks.Pairwise fun p q => R p.x q.x)
    {k : Knot ℝ} (hk : k ∈ ks.dropWhile fun k => decide (k.x < 0)) : 0 ≤ k.x := by
  induction ks with
  | nil => cases hk
  | cons a rest ih =>
    obtain ⟨ha, hrest⟩ := List.pairwise_cons.mp h
    rw [List.dropWhile_cons] at hk
    by_cases hneg : a.x < 0
    · rw [if_pos (decide_eq_true hneg)] at hk
      exact ih hrest hk
    · rw [if_neg (by rwa [decide_eq_true_iff])] at hk
      rcases List.mem_cons.mp hk with rfl | hmem
      · exact not_lt.mp hneg
      · exact (not_lt.mp hneg).trans (hR.le (ha k hmem))

/-- Unity gain is put in at its place, so the order is kept. -/
theorem pairwise_withUnity (hR : IsLevelOrder R) (h : ks.Pairwise fun p q => R p.x q.x) :
    (withUnity ks).Pairwise fun p q => R p.x q.x := by
  by_cases hne : ∀ k ∈ ks, k.x ≠ 0
  · have hbelow : ∀ k ∈ ks.takeWhile (fun k => decide (k.x < 0)), k.x < 0 := by
      intro k hk
      simpa using List.mem_takeWhile_imp hk
    have habove : ∀ k ∈ ks.dropWhile (fun k => decide (k.x < 0)), 0 < k.x := fun k hk =>
      (nonneg_of_mem_dropWhile hR h hk).lt_of_ne'
        (hne k (List.dropWhile_sublist _ |>.subset hk))
    rw [withUnity_of_ne hne, List.pairwise_append]
    refine ⟨h.sublist (List.takeWhile_sublist _), ?_, ?_⟩
    · rw [List.pairwise_cons]
      exact ⟨fun k hk => hR.of_lt (habove k hk), h.sublist (List.dropWhile_sublist _)⟩
    · intro p hp q hq
      rcases List.mem_cons.mp hq with rfl | hmem
      · exact hR.of_lt (hbelow p hp)
      · exact hR.of_lt ((hbelow p hp).trans (habove q hmem))
  · push Not at hne
    rwa [withUnity_of_eq hne]

theorem pairwise_atPoints (h : points.Pairwise fun p q => R p.input q.input) :
    (atPoints points).Pairwise fun p q => R p.x q.x :=
  List.pairwise_map.mpr h

theorem pairwise_ofPoints (hR : IsLevelOrder R) (hpoints : points ≠ []) (hknee : 0 < knee)
    (h : points.Pairwise fun p q => R p.input q.input) :
    (ofPoints knee points).Pairwise fun p q => R p.x q.x := by
  have hunity := pairwise_withUnity hR (pairwise_atPoints h)
  obtain ⟨lowest, rest, hknots, hall⟩ := exists_ofPoints_eq knee hpoints
  have htail : lowest.x - 2.0 * knee < lowest.x := by
    norm_num
    exact hknee
  rw [hknots] at hunity
  rw [hall, List.pairwise_cons]
  exact ⟨fun k hk => hR.of_lt (htail.trans_le (le_of_mem hR hunity k hk)), hunity⟩

/-! ## The knots of a curve -/

/-- The knots of a curve stand in the order of its points, strictly so or not as these do. -/
theorem pairwise_knots (hR : IsLevelOrder R) (hpoints : points ≠ []) (hknee : 0 < knee)
    (h : points.Pairwise fun p q => R p.input q.input) (gain : ℝ) :
    (Transfer.knots points knee gain).Pairwise fun p q => R p.x q.x := by
  rw [Transfer.knots, List.pairwise_map]
  refine ((pairwise_ofPoints hR hpoints hknee h).sublist (mergeStraight_sublist _)).imp ?_
  exact fun hpq => hR.mul Decibel.inNepers_pos hpq

end Knot

end Compander
