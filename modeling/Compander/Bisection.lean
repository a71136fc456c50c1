/-!
# Bisection

`Bisection.count p n` counts how many of the indices below `n` satisfy `p`, for
a `p` that no index satisfies after one that does not. It asks `p` about one
index for each halving of the range. On any other `p` the answer is some number
up to `n`.

The steps are written out as they are taken, the rounding of each half included,
because what the count is for such a `p` depends on them: pieces of a curve that
are out of order are found by the same steps as pieces in order.

Nothing is said of pieces here, and `p` may be anything that can be asked of an
index. The range that is left is given by its first index and its size, and the last
of its halves has one index, about which `p` is asked once more.
-/

namespace Compander.Bisection

/-- The last index of the range `base ..< base + size` that the halving steps
settle on: each step keeps the upper half if its first index satisfies `p`. -/
def settle (p : Nat → Bool) (base size : Nat) : Nat :=
  if size ≤ 1 then base
  else
    let half := size / 2
    settle p (if p (base + half) then base + half else base) (size - half)
termination_by size
decreasing_by omega

/-- How many indices below `n` satisfy `p`, found by halving. For a range without indices
nothing is asked. -/
def count (p : Nat → Bool) (n : Nat) : Nat :=
  if n = 0 then 0
  else
    let last := settle p 0 n
    if p last then last + 1 else last

/-- Halving never leaves the range, whatever `p` says about the indices that it is asked
about. -/
theorem settle_lt (p : Nat → Bool) (base size : Nat) (h : 0 < size) :
    settle p base size < base + size := by
  induction size using Nat.strongRecOn generalizing base with
  | _ size ih =>
    unfold settle
    split
    · omega
    · have := ih (size - size / 2) (by omega)
        (if p (base + size / 2) then base + size / 2 else base) (by omega)
      dsimp only
      split at this <;> simp_all <;> omega

/-- At most all indices are counted, also for a `p` whose indices are out of order. -/
theorem count_le (p : Nat → Bool) (n : Nat) : count p n ≤ n := by
  unfold count
  split
  · omega
  · have := settle_lt p 0 n (by omega)
    dsimp only
    split <;> omega

end Compander.Bisection
