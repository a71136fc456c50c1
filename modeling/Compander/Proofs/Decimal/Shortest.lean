import Mathlib
import Compander.Decimal.Shortest
import Compander.Proofs.Floating.Values

/-!
# The search for the fewest digits

The shortest decimal lies in the interval of the numbers that round to the binary number, because
the last grid that the search comes to has a place in every such interval:

* `Decimal.value`, `Decimal.Inside` — the number that a decimal stands for, and which numbers
  read back;
* `Decimal.inside_of_onGrid`, `Decimal.exists_onGrid` — what is found on a grid reads back, and
  on a grid that is fine enough something is found;
* `Decimal.inside_shortest` — so the shortest decimal reads back.

Nothing here says that the digits are the fewest; what reads back is a matter of the interval,
and how few they are is a matter of looks. The comparisons of the search are between whole
numbers over a common denominator, and the lemmas on quarters and places take them back to the
numbers that are meant.
-/

namespace Compander.Decimal

variable {f : Binary.Format} {tie : Tie} {b : Binary} {k : ℤ}

/-- The number that a decimal stands for, as an exact fraction. -/
def value (d : Decimal) : ℚ :=
  d.digits * 10 ^ d.exponent

/-- A number lies in the interval of those that round to `b`, with the ends if they belong to
it. -/
def Inside (f : Binary.Format) (b : Binary) (q : ℚ) : Prop :=
  let (low, high, closed) := interval f b
  if closed then low * 2 ^ (b.exponent - 2) ≤ q ∧ q ≤ high * 2 ^ (b.exponent - 2)
  else low * 2 ^ (b.exponent - 2) < q ∧ q < high * 2 ^ (b.exponent - 2)

/-! ## Quarters and places -/

/-- What a number in quarters of the last place of `b` is multiplied by, to be compared on the
grid of `10 ^ k`. -/
def factor (b : Binary) (k : ℤ) : ℕ :=
  2 ^ (b.exponent - 2).toNat * 10 ^ (-k).toNat

/-- What a place on the grid of `10 ^ k` is multiplied by, to be compared with `b`. -/
def unit (b : Binary) (k : ℤ) : ℕ :=
  2 ^ (-(b.exponent - 2)).toNat * 10 ^ k.toNat

theorem quarters_mul (a : ℕ) (b : Binary) (k : ℤ) :
    (a : ℚ) * 2 ^ (b.exponent - 2) * (2 ^ (-(b.exponent - 2)).toNat * 10 ^ (-k).toNat) =
      (a * factor b k : ℕ) := by
  rw [zpow_eq_div two_ne_zero, factor]
  push_cast
  field_simp

theorem places_mul (n : ℕ) (b : Binary) (k : ℤ) :
    (n : ℚ) * 10 ^ k * (2 ^ (-(b.exponent - 2)).toNat * 10 ^ (-k).toNat) =
      (n * unit b k : ℕ) := by
  rw [zpow_eq_div (by norm_num : (10 : ℚ) ≠ 0), unit]
  push_cast
  field_simp

/-- Over a common denominator, quarters and places are compared as whole numbers. -/
theorem quarters_le_places_iff (a n : ℕ) :
    (a : ℚ) * 2 ^ (b.exponent - 2) ≤ n * 10 ^ k ↔ a * factor b k ≤ n * unit b k := by
  rw [← mul_le_mul_iff_left₀
      (by positivity : (0 : ℚ) < 2 ^ (-(b.exponent - 2)).toNat * 10 ^ (-k).toNat),
    quarters_mul, places_mul, Nat.cast_le]

theorem places_le_quarters_iff (a n : ℕ) :
    (n : ℚ) * 10 ^ k ≤ a * 2 ^ (b.exponent - 2) ↔ n * unit b k ≤ a * factor b k := by
  rw [← mul_le_mul_iff_left₀
      (by positivity : (0 : ℚ) < 2 ^ (-(b.exponent - 2)).toNat * 10 ^ (-k).toNat),
    quarters_mul, places_mul, Nat.cast_le]

/-! ## Grids -/

/-- Whether a place on a grid reads back, by the comparisons that the search makes. -/
def isInside (f : Binary.Format) (b : Binary) (k : ℤ) (n : ℕ) : Bool :=
  if (interval f b).2.2 then
    (interval f b).1 * factor b k ≤ n * unit b k && n * unit b k ≤ (interval f b).2.1 * factor b k
  else
    (interval f b).1 * factor b k < n * unit b k && n * unit b k < (interval f b).2.1 * factor b k

theorem isInside_iff {n : ℕ} : isInside f b k n = true ↔ Inside f b (n * 10 ^ k) := by
  rw [isInside, Inside]
  by_cases hclosed : (interval f b).2.2 = true
  · simp only [hclosed, if_true, Bool.and_eq_true, decide_eq_true_eq, quarters_le_places_iff,
      places_le_quarters_iff]
  · simp only [hclosed, if_false, Bool.and_eq_true, decide_eq_true_eq, ← not_le,
      quarters_le_places_iff, places_le_quarters_iff, Bool.false_eq_true]

/-- The neighbours of a number on a grid, and which of them is taken. -/
theorem onGrid?_eq : onGrid? f tie b k =
    let below := 4 * b.mantissa * factor b k / unit b k
    let rest := 4 * b.mantissa * factor b k % unit b k
    match below ≠ 0 && isInside f b k below, isInside f b k (below + 1) with
    | false, false => none
    | true, false => some below
    | false, true => some (below + 1)
    | true, true =>
      if 2 * rest < unit b k then some below
      else if unit b k < 2 * rest then some (below + 1)
      else
        match tie with
        | .upper => some (below + 1)
        | .even => some (if below % 2 = 0 then below else below + 1) :=
  rfl

/-- What is found on a grid reads back, and is not zero, which nothing but zero is read as. -/
theorem inside_of_onGrid {n : ℕ} (h : onGrid? f tie b k = some n) :
    n ≠ 0 ∧ Inside f b (n * 10 ^ k) := by
  rw [← isInside_iff]
  rw [onGrid?_eq] at h
  grind

/-- A grid fine enough has a neighbour that reads back: its places are closer to each other
than half of the interval is wide. -/
theorem exists_onGrid (h : (10 : ℚ) ^ k < 2 ^ (b.exponent - 1)) :
    ∃ n, onGrid? f tie b k = some n := by
  -- the neighbour above the number is less than half a place away
  have hfine : unit b k < 2 * factor b k := by
    rw [show b.exponent - 1 = 1 + (b.exponent - 2) by omega, zpow_add₀ two_ne_zero, zpow_one,
      ← one_mul ((10 : ℚ) ^ k), ← not_le] at h
    have hle := (quarters_le_places_iff (b := b) (k := k) 2 1).not.mp (by exact_mod_cast h)
    omega
  have hpos : 0 < unit b k := by
    rw [unit]
    positivity
  set below := 4 * b.mantissa * factor b k / unit b k with hbelow
  have hinside : isInside f b k (below + 1) = true := by
    have hover := Nat.lt_div_mul_add hpos (a := 4 * b.mantissa * factor b k)
    have hunder := Nat.div_mul_le_self (4 * b.mantissa * factor b k) (unit b k)
    rw [← hbelow] at hover hunder
    have hstep : (below + 1) * unit b k = below * unit b k + unit b k := by ring
    have hlow : (interval f b).1 * factor b k ≤ 4 * b.mantissa * factor b k := by
      gcongr
      exact Nat.sub_le _ _
    have hhigh : (interval f b).2.1 * factor b k =
        4 * b.mantissa * factor b k + 2 * factor b k := by
      rw [← add_mul]
      rfl
    rw [isInside]
    split
    · rw [Bool.and_eq_true]
      exact ⟨decide_eq_true (by omega), decide_eq_true (by omega)⟩
    · rw [Bool.and_eq_true]
      exact ⟨decide_eq_true (by omega), decide_eq_true (by omega)⟩
  cases hgrid : onGrid? f tie b k with
  | some n => exact ⟨n, rfl⟩
  | none =>
    rw [onGrid?_eq] at hgrid
    grind

/-! ## The search -/

/-- What the search finds, it finds on a grid that it comes to; and it does find something if
one of these grids has anything. -/
theorem search_of_onGrid {tries : ℕ} {j n : ℕ} (hj : j < tries)
    (h : onGrid? f tie b (k - j) = some n) :
    onGrid? f tie b (search f tie b tries k).exponent =
      some (search f tie b tries k).digits := by
  induction tries generalizing k j with
  | zero => omega
  | succ tries ih =>
    rw [search]
    cases hgrid : onGrid? f tie b k with
    | some digits => exact hgrid
    | none =>
      cases j with
      | zero =>
        rw [Nat.cast_zero, sub_zero, hgrid] at h
        cases h
      | succ j => exact ih (Nat.lt_of_succ_lt_succ hj) (by rwa [sub_sub, add_comm, ← Nat.cast_succ])

theorem value_trimmed (d : Decimal) : d.trimmed.value = d.value := by
  fun_induction trimmed d with
  | case1 d h ih =>
    rw [ih, value, value]
    have hdigits : d.digits = d.digits / 10 * 10 := by omega
    conv_rhs => rw [hdigits]
    push_cast
    rw [zpow_add₀ (by norm_num), zpow_one]
    ring
  | case2 => rfl

theorem digits_trimmed_ne_zero {d : Decimal} (h : d.digits ≠ 0) : d.trimmed.digits ≠ 0 := by
  fun_induction trimmed d with
  | case1 d hd ih => exact ih (by simp only; omega)
  | case2 => exact h

/-- The power of ten that the search starts from is not much more than the number. -/
theorem ten_zpow_le_two_zpow {top : ℤ} (h : -4096 ≤ top) :
    (10 : ℚ) ^ Int.fdiv (top * 1233) 4096 ≤ 2 ^ (top + 1) := by
  -- `1233 / 4096` is the logarithm of two, to a few parts in a million
  have hhigh : (10 : ℚ) ^ (1233 : ℤ) ≤ 2 ^ (4096 : ℤ) := by
    have hnat : 10 ^ 1233 ≤ 2 ^ 4096 := by decide +kernel
    exact_mod_cast hnat
  have hlow : (2 : ℚ) ^ (4095 : ℤ) ≤ 10 ^ (1233 : ℤ) := by
    have hnat : 2 ^ 4095 ≤ 10 ^ 1233 := by decide +kernel
    exact_mod_cast hnat
  set q := Int.fdiv (top * 1233) 4096 with hq
  have hfloor : q * 4096 ≤ 1233 * top := by
    rw [hq, Int.fdiv_eq_ediv_of_nonneg _ (by decide)]
    omega
  have hpower : (10 : ℚ) ^ (1233 * top) ≤ 2 ^ (4096 * (top + 1)) := by
    rw [zpow_mul]
    rcases le_or_gt 0 top with hnonneg | hneg
    · calc ((10 : ℚ) ^ (1233 : ℤ)) ^ top ≤ (2 ^ (4096 : ℤ)) ^ top :=
            zpow_le_zpow_left₀ hnonneg (by positivity) hhigh
        _ = 2 ^ (4096 * top) := (zpow_mul ..).symm
        _ ≤ 2 ^ (4096 * (top + 1)) := zpow_le_zpow_right₀ one_le_two (by omega)
    · calc ((10 : ℚ) ^ (1233 : ℤ)) ^ top ≤ (2 ^ (4095 : ℤ)) ^ top := by
            obtain ⟨n, rfl⟩ : ∃ n : ℕ, top = -n := ⟨top.natAbs, by omega⟩
            rw [zpow_neg, zpow_neg, zpow_natCast, zpow_natCast]
            exact inv_anti₀ (by positivity) (pow_le_pow_left₀ (by positivity) hlow n)
        _ = 2 ^ (4095 * top) := (zpow_mul ..).symm
        _ ≤ 2 ^ (4096 * (top + 1)) := zpow_le_zpow_right₀ one_le_two (by omega)
  rw [← pow_le_pow_iff_left₀ (by positivity) (by positivity) (by decide : 4096 ≠ 0),
    ← zpow_natCast, ← zpow_natCast, ← zpow_mul, ← zpow_mul, mul_comm (top + 1)]
  exact (zpow_le_zpow_right₀ (by norm_num) hfloor).trans hpower

/-- **The shortest decimal** reads back, and is not zero, for every binary number that a
finite double other than zero can be. -/
theorem inside_shortest (hpos : 0 < b.mantissa) (hlt : b.mantissa < 2 ^ 53)
    (hleast : -1074 ≤ b.exponent) :
    (shortest f tie b).digits ≠ 0 ∧ Inside f b (shortest f tie b).value := by
  have hlog : b.mantissa.log2 ≤ 52 := Nat.le_of_lt_succ ((Nat.log2_lt hpos.ne').mpr hlt)
  set top := b.exponent + Nat.log2 b.mantissa with htop
  set q := Int.fdiv (top * 1233) 4096 with hq
  -- the last grid that is tried is fine enough
  have hfine : (10 : ℚ) ^ (q + 1 - (20 : ℕ)) < 2 ^ (b.exponent - 1) := by
    calc (10 : ℚ) ^ (q + 1 - (20 : ℕ)) = 10 ^ q / 10 ^ 19 := by
          rw [show q + 1 - (20 : ℕ) = q - (19 : ℕ) by push_cast; ring,
            zpow_sub₀ (by norm_num), zpow_natCast]
      _ ≤ 2 ^ (top + 1) / 10 ^ 19 := by
          gcongr
          exact ten_zpow_le_two_zpow (by omega)
      _ < 2 ^ (top + 1) / 2 ^ 54 := by
          gcongr
          norm_num
      _ = 2 ^ (top + 1 - (54 : ℕ)) := by rw [zpow_sub₀ two_ne_zero, zpow_natCast]
      _ ≤ 2 ^ (b.exponent - 1) := zpow_le_zpow_right₀ one_le_two (by omega)
  obtain ⟨n, hn⟩ : ∃ n, onGrid? f tie b (q + 1 - (20 : ℕ)) = some n := exists_onGrid hfine
  obtain ⟨hne, hinside⟩ := inside_of_onGrid (search_of_onGrid (by decide : 20 < 21) hn)
  rw [shortest, if_neg hpos.ne']
  simp only [← htop, ← hq, value_trimmed]
  exact ⟨digits_trimmed_ne_zero hne, hinside⟩

end Compander.Decimal
