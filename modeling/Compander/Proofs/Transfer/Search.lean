import Compander.Proofs.Exact.Reals

/-!
# The piece that covers a level

The piece for a level is found by bisection, which counts the pieces that begin below the level.
The count is right if the pieces stand in order; this is all the search needs, whatever the
numbers are:

* `Bisection.count_of_falls` — bisection counts the indices that satisfy a property, if the
  property never comes back once it is lost;
* `Transfer.Covers` — what it means that a piece is the one for a level;
* `Transfer.index_eq_count` — the search asks about pieces that there are, and no others;
* `Transfer.covers_index` — the search finds that piece;
* `Transfer.scan`, `Transfer.Covers.eq_scan` — which is the one found by trying piece after piece;
* `Piece.follow` — the gain along a sequence of pieces, read piece after piece;
* `Piece.gain_of_covers` — the piece that covers a level has the gain read there.

The first piece after the tail is never asked about: a level below it has been answered by the
floor, and the search counts from the next one on.
-/

namespace Compander

/-! ## Bisection -/

namespace Bisection

variable {p : Nat → Bool} {n : Nat}

/-- What is true of an index below `n` is true of all indices before it. -/
def Falls (p : Nat → Bool) (n : Nat) : Prop :=
  ∀ i j, i ≤ j → j < n → p j = true → p i = true

/-- Halving settles on the last index that satisfies `p`, or stays at the base if there is
none: nothing above satisfies `p`. -/
theorem settle_of_falls (hp : Falls p n) (base size : Nat) (hn : base + size ≤ n) :
    (settle p base size = base ∨ p (settle p base size) = true) ∧
      ∀ i, settle p base size < i → i < base + size → p i = false := by
  induction size using Nat.strongRecOn generalizing base with
  | _ size ih =>
    unfold settle
    split
    · refine ⟨.inl rfl, fun i hlow hhigh => ?_⟩
      omega
    · dsimp only
      cases hhalf : p (base + size / 2) with
      | true =>
        obtain ⟨hlast, hafter⟩ := ih (size - size / 2) (by omega) (base + size / 2) (by omega)
        rw [if_pos rfl]
        refine ⟨.inr ?_, fun i hlow hhigh => hafter i hlow (by omega)⟩
        rcases hlast with hbase | hlast
        · rw [hbase]
          exact hhalf
        · exact hlast
      | false =>
        obtain ⟨hlast, hafter⟩ := ih (size - size / 2) (by omega) base (by omega)
        rw [if_neg Bool.false_ne_true]
        refine ⟨hlast, fun i hlow hhigh => ?_⟩
        by_cases hi : i < base + (size - size / 2)
        · exact hafter i hlow hi
        · -- the upper part begins at or above the middle, which fails already
          rw [← Bool.not_eq_true]
          intro htrue
          rw [hp (base + size / 2) i (by omega) (by omega) htrue] at hhalf
          cases hhalf

/-- **Bisection counts.** Exactly the indices below the count satisfy `p`, if `p` does not
come back. -/
theorem count_of_falls (hp : Falls p n) :
    (∀ i < count p n, p i = true) ∧ ∀ i, count p n ≤ i → i < n → p i = false := by
  unfold count
  split
  · exact ⟨fun i hi => by omega, fun i _ hi => by omega⟩
  · have hlt : settle p 0 n < 0 + n := settle_lt p 0 n (by omega)
    obtain ⟨hlast, hafter⟩ := settle_of_falls hp 0 n (by omega)
    dsimp only
    cases htrue : p (settle p 0 n) with
    | true =>
      rw [if_pos rfl]
      exact ⟨fun i hi => hp i _ (by omega) (by omega) htrue,
        fun i hlow hhigh => hafter i (by omega) (by omega)⟩
    | false =>
      rw [if_neg Bool.false_ne_true]
      rw [htrue] at hlast
      have hbase : settle p 0 n = 0 := hlast.resolve_right Bool.false_ne_true
      refine ⟨fun i hi => by omega, fun i _ hhigh => ?_⟩
      rcases Nat.eq_zero_or_pos i with rfl | hpos
      · rwa [hbase] at htrue
      · exact hafter i (by omega) (by omega)

/-- Halving asks about indices of the range only, so what `p` says of others does not
matter. -/
theorem settle_congr {q : Nat → Bool} (h : ∀ i < n, p i = q i) (base size : Nat)
    (hn : base + size ≤ n) : settle p base size = settle q base size := by
  induction size using Nat.strongRecOn generalizing base with
  | _ size ih =>
    unfold settle
    split
    · rfl
    · dsimp only
      rw [h (base + size / 2) (by omega)]
      split
      · exact ih (size - size / 2) (by omega) _ (by omega)
      · exact ih (size - size / 2) (by omega) _ (by omega)

/-- Bisection asks about the indices that it counts, and no others, so it never leaves an
array. -/
theorem count_congr {q : Nat → Bool} (h : ∀ i < n, p i = q i) : count p n = count q n := by
  unfold count
  split
  · rfl
  · have hlt : settle q 0 n < 0 + n := settle_lt q 0 n (by omega)
    dsimp only
    rw [settle_congr h 0 n (by omega), h _ (by omega)]

end Bisection

/-! ## The search -/

namespace Transfer

variable {N : Type} {t : Transfer N}

theorem getElem?_succ {tail : Piece N} {ps : List (Piece N)}
    (ht : t.pieces = (tail :: ps).toArray) (n : Nat) : t.pieces[n + 1]? = ps[n]? := by
  rw [ht, List.getElem?_toArray, List.getElem?_cons_succ]

variable [Arithmetic N] {level : N}

/-- The piece at an index is the one for a level: it is the first piece after the tail whose
successor does not begin below the level, or the last piece if all successors do. -/
structure Covers (t : Transfer N) (level : N) (i : Nat) : Prop where
  /-- the tail is never the one -/
  pos : 1 ≤ i
  /-- the index is that of a piece -/
  lt_size : i < t.pieces.size
  /-- the pieces from the first to the one before have successors that begin below the level -/
  before : ∀ j, 1 ≤ j → j < i → ∃ q, t.pieces[j + 1]? = some q ∧ q.x < level
  /-- a successor of the piece does not -/
  after : ∀ q, t.pieces[i + 1]? = some q → ¬q.x < level

/-- The pieces begin in order. -/
def InOrder (t : Transfer N) : Prop :=
  t.pieces.toList.Pairwise fun p q => p.x ≤ q.x

instance (t : Transfer N) : Decidable t.InOrder :=
  inferInstanceAs (Decidable (List.Pairwise _ _))

/-- The search asks whether pieces after the second begin below the level, each of them one that
there is. -/
theorem index_eq_count {below : Nat → Bool}
    (h : ∀ (i : Nat) (hi : i + 2 < t.pieces.size), below i = decide (t.pieces[i + 2].x < level)) :
    t.index level = 1 + Bisection.count below (t.pieces.size - 2) := by
  rw [index, Bisection.count_congr fun i hi => ?_]
  have hplace : i + 2 < t.pieces.size := by omega
  rw [h i hplace, Array.getElem?_eq_getElem hplace, Option.any_some]

/-- **The search finds the piece.** All it takes is that a piece begins below the level if a
later one does. -/
theorem covers_index (hsize : 2 ≤ t.pieces.size)
    (hbelow : ∀ (i j : Nat) (p q : Piece N), i ≤ j → t.pieces[i]? = some p →
      t.pieces[j]? = some q → q.x < level → p.x < level) :
    t.Covers level (t.index level) := by
  have hfalls : Bisection.Falls (fun i => t.pieces[i + 2]?.any (·.x < level))
      (t.pieces.size - 2) := by
    intro i j hij hj htrue
    obtain ⟨q, hq, hlt⟩ := (Option.any_eq_true ..).mp htrue
    have hi : i + 2 < t.pieces.size := by omega
    refine (Option.any_eq_true ..).mpr ⟨_, Array.getElem?_eq_getElem hi, ?_⟩
    exact decide_eq_true (hbelow (i + 2) (j + 2) _ q (by omega) (Array.getElem?_eq_getElem hi)
      hq (of_decide_eq_true hlt))
  obtain ⟨hcounted, hrest⟩ := Bisection.count_of_falls hfalls
  have hle := Bisection.count_le (fun i => t.pieces[i + 2]?.any (·.x < level)) (t.pieces.size - 2)
  unfold index
  refine ⟨by omega, by omega, fun j hpos hj => ?_, fun q hq hlt => ?_⟩
  · obtain ⟨q, hq, hlt⟩ := (Option.any_eq_true ..).mp (hcounted (j - 1) (by omega))
    rw [show j - 1 + 2 = j + 1 by omega] at hq
    exact ⟨q, hq, of_decide_eq_true hlt⟩
  · have hsuccessor (count : Nat) : 1 + count + 1 = count + 2 := by omega
    rw [hsuccessor] at hq
    obtain ⟨hbound, -⟩ := Array.getElem?_eq_some_iff.mp hq
    have hfalse := hrest _ le_rfl (by omega)
    rw [hq, Option.any_some, decide_eq_false_iff_not] at hfalse
    exact hfalse hlt

/-- The index of the piece for a level, found by trying the pieces after the tail one after
another: the first whose successor does not begin below the level, or the last. -/
def scan (t : Transfer N) (level : N) : Nat :=
  1 + (t.pieces.toList.drop 2).findIdx fun p => !decide (p.x < level)

/-- Trying piece after piece finds the one for the level, so there is no more than one. -/
theorem Covers.eq_scan {i : Nat} (h : t.Covers level i) : i = t.scan level := by
  obtain ⟨n, rfl⟩ := Nat.exists_eq_add_of_le h.pos
  have hget (j : Nat) : (t.pieces.toList.drop 2)[j]? = t.pieces[1 + j + 1]? := by
    rw [List.getElem?_drop, Array.getElem?_toList]
    congr 1
    omega
  have hlength : (t.pieces.toList.drop 2).length = t.pieces.size - 2 := by
    rw [List.length_drop, Array.length_toList]
  have hlt := h.lt_size
  have hbefore : ∀ (j : Nat) (hj : j < (t.pieces.toList.drop 2).length), j < n →
      (!decide ((t.pieces.toList.drop 2)[j].x < level)) = false := by
    intro j hj hjn
    obtain ⟨q, hq, hbelow⟩ := h.before (1 + j) (by omega) (by omega)
    rw [← hget, List.getElem?_eq_getElem hj] at hq
    rw [Option.some.inj hq, decide_eq_true hbelow, Bool.not_true]
  rw [scan, Nat.add_right_inj]
  symm
  rcases Nat.lt_or_ge n (t.pieces.toList.drop 2).length with hn | hn
  · have hafter := h.after _ (by rw [← hget, List.getElem?_eq_getElem hn])
    rw [List.findIdx_eq hn, decide_eq_false hafter]
    exact ⟨Bool.not_false, fun j hj => hbefore j (by omega) hj⟩
  · -- every piece begins below the level, and the last one is left
    obtain rfl : n = (t.pieces.toList.drop 2).length := by omega
    rw [List.findIdx_eq_length]
    intro p hp
    obtain ⟨j, hj, rfl⟩ := List.getElem_of_mem hp
    exact hbefore j hj hj

end Transfer

/-! ## Following the pieces -/

namespace Piece

variable {t : Transfer ℝ} {l : ℝ}

/-- The gain at a level along a sequence of pieces, of which the first is `p`: each piece holds
up to the level where the next begins. -/
noncomputable def follow (p : Piece ℝ) : List (Piece ℝ) → ℝ → ℝ
  | [], l => p.gain l
  | q :: rest, l => if l ≤ q.x then p.gain l else follow q rest l

theorem follow_nil (p : Piece ℝ) (l : ℝ) : p.follow [] l = p.gain l :=
  rfl

theorem follow_of_le {p q : Piece ℝ} {rest : List (Piece ℝ)} (h : l ≤ q.x) :
    p.follow (q :: rest) l = p.gain l :=
  if_pos h

theorem follow_of_lt {p q : Piece ℝ} {rest : List (Piece ℝ)} (h : q.x < l) :
    p.follow (q :: rest) l = q.follow rest l :=
  if_neg h.not_ge

/-- The piece after all those that begin below the level has the gain at the level. -/
theorem follow_eq_gain {p q : Piece ℝ} {rest : List (Piece ℝ)} {n : Nat}
    (hbefore : ∀ j < n, ∃ r, rest[j]? = some r ∧ r.x < l)
    (hafter : ∀ r, rest[n]? = some r → ¬r.x < l) (hq : (p :: rest)[n]? = some q) :
    p.follow rest l = q.gain l := by
  induction rest generalizing p n with
  | nil =>
    cases n with
    | zero =>
      obtain rfl := Option.some.inj hq
      exact follow_nil p l
    | succ n =>
      obtain ⟨r, hr, -⟩ := hbefore 0 (Nat.succ_pos n)
      cases hr
  | cons head rest ih =>
    cases n with
    | zero =>
      obtain rfl := Option.some.inj hq
      exact follow_of_le (not_lt.mp (hafter head rfl))
    | succ n =>
      obtain ⟨r, hr, hlt⟩ := hbefore 0 (Nat.succ_pos n)
      obtain rfl := Option.some.inj hr
      rw [follow_of_lt hlt]
      exact ih (fun j hj => hbefore (j + 1) (Nat.succ_lt_succ hj)) hafter hq

/-- **The piece that covers a level** has the gain read by following the pieces after the
tail. -/
theorem gain_of_covers {tail p q : Piece ℝ} {rest : List (Piece ℝ)} {i : Nat}
    (ht : t.pieces = (tail :: p :: rest).toArray) (h : t.Covers l i)
    (hq : t.pieces[i]? = some q) : q.gain l = p.follow rest l := by
  obtain ⟨n, rfl⟩ := Nat.exists_eq_add_of_le' h.pos
  obtain ⟨-, -, hbefore, hafter⟩ := h
  simp only [Transfer.getElem?_succ ht, List.getElem?_cons_succ] at hbefore hafter hq
  refine (follow_eq_gain (n := n) (fun j hj => ?_) hafter hq).symm
  exact hbefore (j + 1) (Nat.le_add_left 1 j) (Nat.succ_lt_succ hj)

end Piece

end Compander
