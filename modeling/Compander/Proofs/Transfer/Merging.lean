import Compander.Proofs.Transfer.Interpolation

/-!
# One pass of merging

Merging reads the knots once, from the first to the last. An inner knot is tried against the
last knot that was kept and the knot after it; if it stays it is not tried again, though the
knot after it may go. So three neighbours among the knots that are left bend as much as is asked
where nothing went between the second and the third, and less where something did:

* `Knot.Bent` — no inner knot lies on the line through its neighbours;
* `Knot.mergeStraight_eq_self_iff` — these are the lists that merging leaves alone;
* `Knot.Tried`, `Knot.exists_tried` — how three neighbours stood before merging, and what went
  between them;
* `Knot.lt_abs_bend_of_spaced` — they do bend as much as is asked where the knots that went
  stood far enough apart;
* `Knot.mergeStraight_leaves` — what is left, in exact arithmetic;
* `Knot.not_bent_mergeStraight` — knots that a second pass would merge further.
-/

namespace Compander.Knot

section Arithmetic

variable {W : Type} [WideArithmetic W] {p q r a b c : Knot W} {rest ks : List (Knot W)}

/-! ## Lists that merging leaves alone -/

/-- No inner knot lies on the line through its neighbours. -/
def Bent (ks : List (Knot W)) : Prop :=
  ∀ a b c, [a, b, c] <:+: ks → isStraight a b c = false

theorem bent_of_length_le (h : ks.length ≤ 2) : Bent ks := by
  intro a b c hinfix
  have hlength : 3 ≤ ks.length := hinfix.length_le
  omega

theorem bent_cons_iff : Bent (p :: q :: r :: rest) ↔
    isStraight p q r = false ∧ Bent (q :: r :: rest) := by
  constructor
  · intro h
    refine ⟨h p q r ?_, fun a b c hinfix => h a b c (List.infix_cons hinfix)⟩
    exact (List.prefix_append [p, q, r] rest).isInfix
  · rintro ⟨hfirst, hrest⟩ a b c hinfix
    rcases List.infix_cons_iff.mp hinfix with hstart | hinfix
    · simp only [List.cons_prefix_cons] at hstart
      obtain ⟨rfl, rfl, rfl, -⟩ := hstart
      exact hfirst
    · exact hrest a b c hinfix

/-- A pass takes nothing away exactly if no inner knot is straight between its neighbours. -/
theorem mergeFrom_eq_self_iff (p q : Knot W) (rest : List (Knot W)) :
    mergeFrom p q rest = p :: q :: rest ↔ Bent (p :: q :: rest) := by
  induction rest generalizing p q with
  | nil => exact iff_of_true rfl (bent_of_length_le le_rfl)
  | cons r rest ih =>
    rw [mergeFrom, bent_cons_iff]
    split
    · rename_i hstraight
      -- a pass that takes a knot away leaves a shorter list
      have hshorter : (mergeFrom p r rest).length < (p :: q :: r :: rest).length :=
        (mergeFrom_sublist p r rest).length_le.trans_lt (Nat.lt_succ_self _)
      refine iff_of_false (fun heq => hshorter.ne (congrArg List.length heq)) fun h => ?_
      rw [hstraight] at h
      exact Bool.noConfusion h.1
    · rename_i hbent
      rw [List.cons_inj_right, ih q r]
      exact (and_iff_right (Bool.eq_false_of_not_eq_true hbent)).symm

/-- Merging takes nothing away exactly if no inner knot is straight; lists of two knots are
left alone. -/
theorem mergeStraight_eq_self_iff (ks : List (Knot W)) : mergeStraight ks = ks ↔ Bent ks := by
  match ks with
  | [] => exact iff_of_true rfl (bent_of_length_le (Nat.zero_le _))
  | [_] => exact iff_of_true rfl (bent_of_length_le one_le_two)
  | p :: q :: rest => exact mergeFrom_eq_self_iff p q rest

/-! ## The ends -/

theorem getLast?_mergeFrom (p q : Knot W) (rest : List (Knot W)) :
    (mergeFrom p q rest).getLast? = (q :: rest).getLast? := by
  induction rest generalizing p q with
  | nil => rfl
  | cons r rest ih =>
    rw [mergeFrom, List.getLast?_cons_cons]
    split
    · exact ih p r
    · obtain ⟨k, ks, hks⟩ := exists_mergeFrom_eq q r rest
      rw [← ih q r, hks, List.getLast?_cons_cons]

/-- Merging keeps the last knot, which is never tried. -/
theorem getLast?_mergeStraight (ks : List (Knot W)) :
    (mergeStraight ks).getLast? = ks.getLast? := by
  unfold mergeStraight
  split
  · rw [getLast?_mergeFrom, List.getLast?_cons_cons]
  · rfl

/-- Merging keeps the first knot, which is never tried either. -/
theorem head?_mergeStraight (ks : List (Knot W)) : (mergeStraight ks).head? = ks.head? := by
  unfold mergeStraight
  split
  · rename_i p q rest
    obtain ⟨k, ks, hks⟩ := exists_mergeFrom_eq p q rest
    rw [hks, List.head?_cons, List.head?_cons]
  · rfl

/-! ## Neighbours -/

/-- How three neighbours stood in the list `ks` before merging, with the knots that went between
them. Each of these lay on the line from the neighbour before it to the knot after it, and the
middle neighbour did not. -/
structure Tried (ks : List (Knot W)) (a b c : Knot W) (first second : List (Knot W)) : Prop where
  /-- the knots stood there one after another -/
  infix_all : a :: (first ++ b :: (second ++ [c])) <:+: ks
  /-- those between the first two went -/
  first_straight : (first ++ [b]).IsChain fun q r => isStraight a q r = true
  /-- the middle one stayed -/
  bent : ∀ next ∈ (second ++ [c]).head?, isStraight a b next = false
  /-- those after it went -/
  second_straight : (second ++ [c]).IsChain fun q r => isStraight b q r = true

omit [WideArithmetic W] in
theorem eq_of_head?_of_isPrefix {l : List (Knot W)} (h : l <+: r :: rest) :
    ∀ s ∈ l.head?, s = r := by
  intro s hs
  obtain ⟨l, rfl⟩ := List.head?_eq_some_iff.mp hs
  exact (List.cons_prefix_cons.mp h).1

/-- The knot that a pass keeps next, and the knots that went before it, each of which was
straight when it was tried. -/
theorem exists_skipped (h : [b, c] <+: mergeFrom p q rest) :
    b = p ∧ ∃ skipped, skipped ++ [c] <+: q :: rest ∧
      (skipped ++ [c]).IsChain fun q r => isStraight p q r = true := by
  induction rest generalizing q with
  | nil =>
    rw [mergeFrom, List.cons_prefix_cons, List.cons_prefix_cons] at h
    obtain ⟨rfl, rfl, -⟩ := h
    exact ⟨rfl, [], List.prefix_rfl, List.isChain_singleton _⟩
  | cons r rest ih =>
    rw [mergeFrom] at h
    split at h
    · rename_i hstraight
      obtain ⟨hb, skipped, hstart, hchain⟩ := ih h
      refine ⟨hb, q :: skipped, List.cons_prefix_cons.mpr ⟨rfl, hstart⟩, ?_⟩
      rw [List.cons_append, List.isChain_cons]
      refine ⟨fun s hs => ?_, hchain⟩
      rw [eq_of_head?_of_isPrefix hstart s hs]
      exact hstraight
    · obtain ⟨k, ks, hks⟩ := exists_mergeFrom_eq q r rest
      rw [hks, List.cons_prefix_cons, List.cons_prefix_cons] at h
      obtain ⟨rfl, rfl, -⟩ := h
      exact ⟨rfl, [], List.prefix_append [c] (r :: rest), List.isChain_singleton _⟩

/-- A knot before the list changes nothing for three neighbours in it, since a pass does not
go back. -/
theorem Tried.cons {first second : List (Knot W)} (h : Tried ks a b c first second) (k : Knot W) :
    Tried (k :: ks) a b c first second :=
  ⟨List.infix_cons h.infix_all, h.first_straight, h.bent, h.second_straight⟩

/-- A knot that goes may be put back: it joins those after the first neighbour, if it came
right after that. -/
theorem Tried.insert {first second : List (Knot W)} (h : Tried (p :: r :: rest) a b c first second)
    (hstraight : isStraight p q r = true) :
    ∃ first', Tried (p :: q :: r :: rest) a b c first' second := by
  rcases List.infix_cons_iff.mp h.infix_all with hstart | hinfix
  · obtain ⟨rfl, hrest⟩ := List.cons_prefix_cons.mp hstart
    have hfirst : first ++ [b] <+: r :: rest := by
      rw [List.append_cons] at hrest
      exact (List.prefix_append _ _).trans hrest
    refine ⟨q :: first, ?_, ?_, h.bent, h.second_straight⟩
    · exact (List.cons_prefix_cons.mpr ⟨rfl, List.cons_prefix_cons.mpr ⟨rfl, hrest⟩⟩).isInfix
    · rw [List.cons_append, List.isChain_cons]
      refine ⟨fun s hs => ?_, h.first_straight⟩
      rw [eq_of_head?_of_isPrefix hfirst s hs]
      exact hstraight
  · exact ⟨first, List.infix_cons (List.infix_cons hinfix), h.first_straight, h.bent,
      h.second_straight⟩

/-- **Neighbours** in what a pass leaves were tried where they stood before it, with the knots
between the second and the third still there. -/
theorem exists_tried_mergeFrom (h : [a, b, c] <:+: mergeFrom p q rest) :
    ∃ first second, Tried (p :: q :: rest) a b c first second := by
  induction rest generalizing p q with
  | nil => exact absurd h.length_le (by decide : ¬3 ≤ 2)
  | cons r rest ih =>
    rw [mergeFrom] at h
    split at h
    · rename_i hstraight
      obtain ⟨first, second, htried⟩ := ih h
      obtain ⟨first', htried'⟩ := htried.insert hstraight
      exact ⟨first', second, htried'⟩
    · rename_i hbent
      rcases List.infix_cons_iff.mp h with hstart | hinfix
      · obtain ⟨rfl, hrest⟩ := List.cons_prefix_cons.mp hstart
        obtain ⟨rfl, second, hsecond, hchain⟩ := exists_skipped hrest
        refine ⟨[], second, ?_, List.isChain_singleton _, fun next hnext => ?_, hchain⟩
        · exact (List.cons_prefix_cons.mpr ⟨rfl, List.cons_prefix_cons.mpr ⟨rfl, hsecond⟩⟩).isInfix
        · rw [eq_of_head?_of_isPrefix hsecond next hnext]
          exact Bool.eq_false_of_not_eq_true hbent
      · obtain ⟨first, second, htried⟩ := ih hinfix
        exact ⟨first, second, htried.cons p⟩

/-- Neighbours in what merging leaves were tried where they stood before, as the middle one of
three. -/
theorem exists_tried (h : [a, b, c] <:+: mergeStraight ks) :
    ∃ first second, Tried ks a b c first second := by
  match ks with
  | [] => exact absurd h.length_le (by decide : ¬3 ≤ 0)
  | [_] => exact absurd h.length_le (by decide : ¬3 ≤ 1)
  | p :: q :: rest => exact exists_tried_mergeFrom h

end Arithmetic

/-! ## Knots that went -/

section Exact

variable {a b c q r : Knot ℝ} {ks : List (Knot ℝ)}

theorem isStraight_eq_false_iff : isStraight a b c = false ↔ 1e-6 < |bend a b c| := by
  rw [← Bool.not_eq_true, isStraight_iff, not_le]
  rfl

/-- If the knot `q` goes, which lay on the line from `b` to `r`, then what `b` bends between `a`
and `r` is what it did between `a` and `q`, stretched, and some of what `q` did. -/
theorem bend_mul_eq (a b q r : Knot ℝ) :
    bend a b r * (q.x - b.x) = bend a b q * (r.x - b.x) + bend b q r * (b.x - a.x) := by
  rw [bend, bend, bend]
  ring

/-- One knot that goes leaves the bend before it as large as is asked, if it stands as far from
the next as the bend from the knot before. -/
theorem lt_abs_bend_of_spaced_step (hab : a.x < b.x) (hbq : b.x < q.x)
    (hspaced : b.x - a.x ≤ r.x - q.x) (hbend : 1e-6 < |bend a b q|)
    (hstraight : |bend b q r| ≤ 1e-6) : 1e-6 < |bend a b r| := by
  have hleg : 0 < b.x - a.x := sub_pos.mpr hab
  have hrun : 0 < q.x - b.x := sub_pos.mpr hbq
  have hwhole : 0 < r.x - b.x := by linarith
  have hfirst : 1e-6 * (r.x - b.x) < |bend a b q * (r.x - b.x)| := by
    rw [abs_mul, abs_of_pos hwhole]
    exact mul_lt_mul_of_pos_right hbend hwhole
  have hsecond : |bend b q r * (b.x - a.x)| ≤ 1e-6 * (b.x - a.x) := by
    rw [abs_mul, abs_of_pos hleg]
    exact mul_le_mul_of_nonneg_right hstraight hleg.le
  have hsum := abs_sub_abs_le_abs_add (bend a b q * (r.x - b.x)) (bend b q r * (b.x - a.x))
  refine lt_of_mul_lt_mul_right ?_ hrun.le
  rw [← abs_of_pos hrun, ← abs_mul, bend_mul_eq, abs_of_pos hrun]
  linarith

/-- Knots that go one after another leave the bend before them as large as is asked, if each
stands as far from the next as the bend from the knot before. -/
theorem lt_abs_bend_of_spaced {skipped : List (Knot ℝ)} (hab : a.x < b.x)
    (hordered : ∀ k ∈ skipped, b.x < k.x)
    (hspaced : (skipped ++ [c]).IsChain fun q r => b.x - a.x ≤ r.x - q.x)
    (hbend : ∀ next ∈ (skipped ++ [c]).head?, 1e-6 < |bend a b next|)
    (hstraight : (skipped ++ [c]).IsChain fun q r => |bend b q r| ≤ 1e-6) :
    1e-6 < |bend a b c| := by
  induction skipped with
  | nil => exact hbend c rfl
  | cons q rest ih =>
    rw [List.cons_append, List.isChain_cons] at hspaced hstraight
    refine ih (fun k hk => hordered k (List.mem_cons_of_mem _ hk)) hspaced.2 (fun r hr => ?_)
      hstraight.2
    exact lt_abs_bend_of_spaced_step hab (hordered q List.mem_cons_self) (hspaced.1 r hr)
      (hbend q rfl) (hstraight.1 r hr)

/-- **What merging leaves.** It leaves the first and the last knot and some of those between
them. Where it leaves `a`, `b` and `c` one after another, `b` bends by more than the tolerance
between `a` and the knot that followed `b` before; that is `c`, unless knots went between
`b` and `c`, each on the line from `b` to the knot after it. Even then `b` bends by more than the
tolerance between `a` and `c`, if those knots stood no closer together than `a` and `b`. A second
pass takes nothing away exactly if all neighbours that are left bend by more than it. -/
theorem mergeStraight_leaves (ks : List (Knot ℝ)) :
    (mergeStraight ks).Sublist ks ∧ (mergeStraight ks).head? = ks.head? ∧
      (mergeStraight ks).getLast? = ks.getLast? ∧
      (∀ a b c, [a, b, c] <:+: mergeStraight ks → ∃ first second : List (Knot ℝ),
        a :: (first ++ b :: (second ++ [c])) <:+: ks ∧
        (first ++ [b]).IsChain (fun q r => |bend a q r| ≤ 1e-6) ∧
        (second ++ [c]).IsChain (fun q r => |bend b q r| ≤ 1e-6) ∧
        (∀ next ∈ (second ++ [c]).head?, 1e-6 < |bend a b next|) ∧
        (a.x < b.x → (∀ k ∈ second, b.x < k.x) →
          (second ++ [c]).IsChain (fun q r => b.x - a.x ≤ r.x - q.x) → 1e-6 < |bend a b c|)) ∧
      (mergeStraight (mergeStraight ks) = mergeStraight ks ↔
        ∀ a b c, [a, b, c] <:+: mergeStraight ks → 1e-6 < |bend a b c|) := by
  refine ⟨mergeStraight_sublist ks, head?_mergeStraight ks, getLast?_mergeStraight ks,
    fun a b c hinfix => ?_, ?_⟩
  · obtain ⟨first, second, htried⟩ := exists_tried hinfix
    have hfirst : (first ++ [b]).IsChain fun q r => |bend a q r| ≤ 1e-6 :=
      htried.first_straight.imp fun _ _ => isStraight_iff.mp
    have hsecond : (second ++ [c]).IsChain fun q r => |bend b q r| ≤ 1e-6 :=
      htried.second_straight.imp fun _ _ => isStraight_iff.mp
    have hbent : ∀ next ∈ (second ++ [c]).head?, 1e-6 < |bend a b next| := fun next hnext =>
      isStraight_eq_false_iff.mp (htried.bent next hnext)
    exact ⟨first, second, htried.infix_all, hfirst, hsecond, hbent,
      fun hab hordered hspaced => lt_abs_bend_of_spaced hab hordered hspaced hbent hsecond⟩
  · rw [mergeStraight_eq_self_iff, Bent]
    simp only [isStraight_eq_false_iff]

/-- **One pass is not enough.** Points at -40 dB, -39.995 dB and -39.99 dB, the middle one of
them a bump of less than a ten-thousandth of a decibel. The bump is high enough for the knot
before it to stay, and then goes itself. What is left is one straight run. -/
theorem not_bent_mergeStraight :
    let ks : List (Knot ℝ) := ofPoints 0.01 [⟨-40, -40⟩, ⟨-39.995, -39.99491⟩, ⟨-39.99, -39.99⟩]
    mergeStraight ks = [⟨-40.02, 0⟩, ⟨-40, 0⟩, ⟨0, 0⟩] ∧
      (¬∀ a b c, [a, b, c] <:+: mergeStraight ks → 1e-6 < |bend a b c|) ∧
      mergeStraight (mergeStraight ks) = [⟨-40.02, 0⟩, ⟨0, 0⟩] := by
  have hknots : ofPoints 0.01 [⟨-40, -40⟩, ⟨-39.995, -39.99491⟩, ⟨-39.99, -39.99⟩] =
      ([⟨-40.02, 0⟩, ⟨-40, 0⟩, ⟨-39.995, 9e-5⟩, ⟨-39.99, 0⟩, ⟨0, 0⟩] : List (Knot ℝ)) := by
    rw [ofPoints_of_neg, atPoints]
    · norm_num [withTail]
    · norm_num
  have hbefore : ¬isStraight (⟨-40.02, 0⟩ : Knot ℝ) ⟨-40, 0⟩ ⟨-39.995, 9e-5⟩ = true := by
    rw [isStraight_iff]
    norm_num
  have hbump : isStraight (⟨-40, 0⟩ : Knot ℝ) ⟨-39.995, 9e-5⟩ ⟨-39.99, 0⟩ = true := by
    rw [isStraight_iff]
    norm_num
  have hafter : isStraight (⟨-40, 0⟩ : Knot ℝ) ⟨-39.99, 0⟩ ⟨0, 0⟩ = true := by
    rw [isStraight_iff]
    norm_num
  have hleft : isStraight (⟨-40.02, 0⟩ : Knot ℝ) ⟨-40, 0⟩ ⟨0, 0⟩ = true := by
    rw [isStraight_iff]
    norm_num
  have hmerged :
      mergeStraight (ofPoints 0.01 [⟨-40, -40⟩, ⟨-39.995, -39.99491⟩, ⟨-39.99, -39.99⟩]) =
        ([⟨-40.02, 0⟩, ⟨-40, 0⟩, ⟨0, 0⟩] : List (Knot ℝ)) := by
    rw [hknots, mergeStraight, mergeFrom, if_neg hbefore, mergeFrom, if_pos hbump, mergeFrom,
      if_pos hafter, mergeFrom]
  dsimp only
  rw [hmerged]
  refine ⟨rfl, fun hbent => ?_, ?_⟩
  · have hthree := hbent ⟨-40.02, 0⟩ ⟨-40, 0⟩ ⟨0, 0⟩ List.infix_rfl
    exact hthree.not_ge (isStraight_iff.mp hleft)
  · rw [mergeStraight, mergeFrom, if_pos hleft, mergeFrom]

end Exact

end Compander.Knot
