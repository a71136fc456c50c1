import Compander.Clock
import Mathlib.Algebra.BigOperators.Group.List.Basic
import Mathlib.Algebra.Order.Field.Rat
import Mathlib.Algebra.Order.Round
import Mathlib.Data.Rat.Floor
import Mathlib.Tactic.FieldSimp
import Mathlib.Tactic.Linarith
import Mathlib.Tactic.Positivity
import Mathlib.Tactic.Ring

/-!
# How far a clock drifts

A count of ticks is a duration rounded to the nearest whole tick. A clock that is moved
on by such counts strays from the exact time by half a tick with each of them:

* `Tick.duration` — the exact duration of some samples, in ticks;
* `Tick.abs_count_sub_duration` — a count is at most half a tick off;
* `Tick.elapsed` — the ticks of several runs of samples, counted one by one;
* `Tick.abs_elapsed_sub_duration` — they are at most half a tick off for each run.

All of it is for counts that fit a signed word of 64 bits (`Tick.Fits`). A clock that leaves the
range of such words goes on from its other end, so a stamp is what the count says as long as it
stays within (`Tick.IsStamp`, `Tick.after_eq`).

Durations add up exactly and counts do not, which is all that there is to the drift. Where a
tick is as long as a sample there is nothing to round, and no drift either.
-/

namespace Compander.Tick

/-- The duration of some samples, in ticks, exactly and with fractions. -/
def duration (t : Tick) (samples rate : Nat) : ℚ :=
  samples / (rate * (t.num / t.den))

theorem duration_eq (t : Tick) (samples rate : Nat) :
    t.duration samples rate = samples * t.den / (rate * t.num) := by
  rw [duration, ← mul_div_assoc, div_div_eq_mul_div]

/-- The nearest number of ticks to the duration of some samples, a half going up. -/
def nearest (t : Tick) (samples rate : Nat) : Int :=
  (2 * (samples * t.den) + rate * t.num) / (2 * (rate * t.num))

/-- The ticks of some samples fit a signed word of 64 bits. -/
def Fits (t : Tick) (rate samples : Nat) : Prop :=
  t.nearest samples rate < 2 ^ 63

instance (t : Tick) (rate samples : Nat) : Decidable (t.Fits rate samples) :=
  inferInstanceAs (Decidable (_ < _))

/-- A whole number is a signed word of 64 bits, and so can be a stamp. -/
def IsStamp (n : Int) : Prop :=
  -2 ^ 63 ≤ n ∧ n < 2 ^ 63

instance (n : Int) : Decidable (IsStamp n) :=
  inferInstanceAs (Decidable (_ ∧ _))

variable {t : Tick} {rate samples : Nat}

/-- What is a word does not wrap around, and so stays what it is. -/
theorem word_of_isStamp {n : Int} (h : IsStamp n) : word n = n :=
  Int.bmod_eq_of_le (by have := h.1; omega) (by have := h.2; omega)

/-- A clock that stays within the words moves on by the count of the samples, neither more nor
less. -/
theorem after_eq {stamp : Int} (h : IsStamp (stamp + t.count samples rate)) :
    t.after stamp samples rate = stamp + t.count samples rate :=
  word_of_isStamp h

theorem isValid_iff : t.isValid = true ↔ 0 < t.num ∧ 0 < t.den := by
  rw [isValid, Bool.and_eq_true, decide_eq_true_eq, decide_eq_true_eq]

theorem nearest_nonneg (ht : t.isValid = true) : 0 ≤ t.nearest samples rate := by
  obtain ⟨hnum, hden⟩ := isValid_iff.mp ht
  apply Int.ediv_nonneg
  · positivity
  · positivity

/-- A count that fits is the nearest number of ticks, although it is computed with a division
that cuts off. -/
theorem count_eq_nearest (ht : t.isValid = true) (hrate : 0 < rate) (hfits : t.Fits rate samples) :
    t.count samples rate = t.nearest samples rate := by
  obtain ⟨hnum, hden⟩ := isValid_iff.mp ht
  have hpos : 0 < (rate : Int) * t.num := by positivity
  have hnonneg : 0 ≤ t.nearest samples rate := nearest_nonneg ht
  simp only [count, if_neg hpos.ne']
  -- the dividend is not negative, so truncation rounds down, and nothing wraps around
  rw [Int.tdiv_eq_ediv_of_nonneg (by positivity)]
  change word (t.nearest samples rate) = _
  exact word_of_isStamp ⟨by omega, hfits⟩

/-- A clock is never moved back by samples, however few they are. -/
theorem count_nonneg (ht : t.isValid = true) (hrate : 0 < rate) (hfits : t.Fits rate samples) :
    0 ≤ t.count samples rate := by
  rw [count_eq_nearest ht hrate hfits]
  exact nearest_nonneg ht

/-- A quotient that is rounded down with half a divisor more is the nearest whole number, a half
going up. -/
theorem ediv_eq_round {n m : Int} (hm : 0 < m) :
    (2 * n + m) / (2 * m) = round (n / m : ℚ) := by
  -- the two sides of a quotient that is rounded down
  have hlow : 2 * m * ((2 * n + m) / (2 * m)) ≤ 2 * n + m := Int.mul_ediv_self_le (by omega)
  have hhigh : 2 * n + m < 2 * m * ((2 * n + m) / (2 * m)) + 2 * m :=
    Int.lt_mul_ediv_self_add (by omega)
  generalize (2 * n + m) / (2 * m) = q at hlow hhigh
  have hlow' : (2 * m * q : ℚ) ≤ 2 * n + m := by exact_mod_cast hlow
  have hhigh' : (2 * n + m : ℚ) < 2 * m * q + 2 * m := by exact_mod_cast hhigh
  have hm' : (0 : ℚ) < m := by exact_mod_cast hm
  rw [eq_comm, round_eq_iff, Set.mem_Ico, le_div_iff₀ hm', div_lt_iff₀ hm']
  constructor
  · linarith
  · linarith

/-- A count is at most half a tick off. -/
theorem abs_count_sub_duration (ht : t.isValid = true) (hrate : 0 < rate)
    (hfits : t.Fits rate samples) :
    |(t.count samples rate : ℚ) - t.duration samples rate| ≤ 1 / 2 := by
  obtain ⟨hnum, hden⟩ := isValid_iff.mp ht
  have hpos : 0 < (rate : Int) * t.num := by positivity
  have hround := abs_sub_round ((samples * t.den : Int) / (rate * t.num : Int) : ℚ)
  rw [count_eq_nearest ht hrate hfits, nearest, ediv_eq_round hpos, duration_eq, abs_sub_comm]
  push_cast at hround ⊢
  exact hround

/-- With a tick for each sample a count is exact, because there is nothing to round. -/
theorem count_eq_samples (ht : t.isValid = true) (hrate : 0 < rate) (hfits : t.Fits rate samples)
    (hone : rate * t.num = t.den) : t.count samples rate = samples := by
  obtain ⟨hnum, hden⟩ := isValid_iff.mp ht
  rw [count_eq_nearest ht hrate hfits, nearest, hone]
  have hsplit : 2 * ((samples : Int) * t.den) + t.den = t.den + 2 * t.den * samples := by ring
  rw [hsplit, Int.add_mul_ediv_left _ _ (by omega), Int.ediv_eq_zero_of_lt (by omega) (by omega),
    Int.zero_add]

/-- With a tick for each sample a duration is the number of samples. -/
theorem duration_eq_samples (ht : t.isValid = true) (hone : rate * t.num = t.den) :
    t.duration samples rate = samples := by
  obtain ⟨hnum, hden⟩ := isValid_iff.mp ht
  have hone' : (rate * t.num : ℚ) = t.den := by exact_mod_cast hone
  have hne : (t.den : ℚ) ≠ 0 := by exact_mod_cast hden.ne'
  rw [duration_eq, hone', mul_div_assoc, div_self hne, mul_one]

theorem duration_add (t : Tick) (rate samples more : Nat) :
    t.duration (samples + more) rate = t.duration samples rate + t.duration more rate := by
  rw [duration, duration, duration, Nat.cast_add, add_div]

/-! ## Several runs of samples -/

/-- The ticks of several runs of samples, each counted on its own. -/
def elapsed (t : Tick) (rate : Nat) (lengths : List Nat) : Int :=
  (lengths.map (t.count · rate)).sum

theorem elapsed_append (t : Tick) (rate : Nat) (lengths more : List Nat) :
    t.elapsed rate (lengths ++ more) = t.elapsed rate lengths + t.elapsed rate more := by
  rw [elapsed, List.map_append, List.sum_append, elapsed, elapsed]

theorem elapsed_singleton (t : Tick) (rate length : Nat) :
    t.elapsed rate [length] = t.count length rate := by
  rw [elapsed, List.map_singleton, List.sum_singleton]

variable {lengths : List Nat}

theorem elapsed_nonneg (ht : t.isValid = true) (hrate : 0 < rate)
    (hfits : ∀ length ∈ lengths, t.Fits rate length) : 0 ≤ t.elapsed rate lengths := by
  apply List.sum_nonneg
  intro count hcount
  obtain ⟨length, hlength, rfl⟩ := List.mem_map.mp hcount
  exact count_nonneg ht hrate (hfits length hlength)

/-- **The drift of a clock.** Counted run by run, the ticks are off by at most half a tick
for each run. -/
theorem abs_elapsed_sub_duration (ht : t.isValid = true) (hrate : 0 < rate)
    (hfits : ∀ length ∈ lengths, t.Fits rate length) :
    |(t.elapsed rate lengths : ℚ) - t.duration lengths.sum rate| ≤ lengths.length / 2 := by
  induction lengths with
  | nil => simp [elapsed, duration]
  | cons length rest ih =>
    have hone := abs_count_sub_duration ht hrate (hfits length (List.mem_cons_self ..))
    have hrest := ih fun l hl => hfits l (List.mem_cons_of_mem _ hl)
    have hsplit : (t.elapsed rate (length :: rest) : ℚ) - t.duration (length :: rest).sum rate =
        (t.count length rate - t.duration length rate) +
          (t.elapsed rate rest - t.duration rest.sum rate) := by
      rw [elapsed, List.map_cons, List.sum_cons, List.sum_cons, duration_add, elapsed]
      push_cast
      ring
    have hlength : (((length :: rest).length : Nat) : ℚ) / 2 = 1 / 2 + rest.length / 2 := by
      rw [List.length_cons]
      push_cast
      ring
    rw [hsplit, hlength]
    exact (abs_add_le _ _).trans (add_le_add hone hrest)

/-- With a tick for each sample a clock does not drift, however the samples are cut into
runs. -/
theorem elapsed_eq_sum (ht : t.isValid = true) (hrate : 0 < rate)
    (hfits : ∀ length ∈ lengths, t.Fits rate length) (hone : rate * t.num = t.den) :
    t.elapsed rate lengths = lengths.sum := by
  induction lengths with
  | nil => rfl
  | cons length rest ih =>
    have hcount := count_eq_samples ht hrate (hfits length (List.mem_cons_self ..)) hone
    have hrest := ih fun l hl => hfits l (List.mem_cons_of_mem _ hl)
    rw [elapsed] at hrest
    rw [elapsed, List.map_cons, List.sum_cons, List.sum_cons, hcount, hrest, Nat.cast_add]

end Compander.Tick
