import Compander.Proofs.Clock.Drift

/-!
# Counting ticks in words

Ticks are counted in words of 128 bits. As long as none of these overflows, and the result fits 64
bits, a count is the duration of the samples rounded to the nearest whole tick:

* `Tick.wordCount?` — the count in words, none if one of them overflows;
* `Tick.IsNearest` — the nearest whole number, the greater one of two;
* `Tick.count_rounds` — what counts are, and how those of fewer samples and of parts compare.

The words hold twice the dividend, the divisor added to it, and twice the divisor, because a
quotient is rounded by adding a half to it. That they hold these for any buffer that there can
be is a matter of the sizes that rates and ticks have.
-/

namespace Compander.Tick

/-! ## Words -/

/-- A number as a signed word of 128 bits, if it fits one. -/
def word? (x : Int) : Option Int :=
  if -2 ^ 127 ≤ x ∧ x < 2 ^ 127 then some x else none

/-- The number of ticks as it is computed in words. There is none if one of them overflows. -/
def wordCount? (t : Tick) (samples rate : Nat) : Option Int := do
  let n ← word? (samples * t.den)
  let d ← word? (rate * t.num)
  if d = 0 then return 0
  let double ← word? (2 * n)
  let dividend ← word? (double + d)
  let divisor ← word? (2 * d)
  let quotient ← word? (Int.tdiv dividend divisor)
  return word quotient

variable {t : Tick} {rate samples : Nat}

theorem word?_eq_some_iff {x y : Int} :
    word? x = some y ↔ (-2 ^ 127 ≤ x ∧ x < 2 ^ 127) ∧ y = x := by
  rw [word?]
  split <;> simp_all [eq_comm]

theorem word?_of_lt {x : Int} (h : 0 ≤ x) (hx : x < 2 ^ 127) : word? x = some x :=
  word?_eq_some_iff.mpr ⟨⟨by omega, hx⟩, rfl⟩

/-- Where no word overflows, the words hold the count as whole numbers have it. -/
theorem eq_count_of_wordCount? {k : Int} (h : t.wordCount? samples rate = some k) :
    k = t.count samples rate := by
  simp only [wordCount?, Option.bind_eq_bind, Option.bind_eq_some_iff, word?_eq_some_iff] at h
  obtain ⟨n, ⟨-, rfl⟩, d, ⟨-, rfl⟩, h⟩ := h
  rw [count]
  split at h
  · rename_i hd
    rw [if_pos hd]
    exact (Option.some.inj h).symm
  · rename_i hd
    simp only [Option.bind_eq_some_iff, word?_eq_some_iff] at h
    obtain ⟨double, ⟨-, rfl⟩, dividend, ⟨-, rfl⟩, divisor, ⟨-, rfl⟩, quotient, ⟨-, rfl⟩, hk⟩ := h
    rw [if_neg hd]
    exact (Option.some.inj hk).symm

/-- No word overflows if the dividend and the divisor do not, with what rounding adds to
them. -/
theorem wordCount?_eq_count (ht : t.isValid = true)
    (hdividend : 2 * (samples * t.den) + rate * t.num < 2 ^ 127)
    (hdivisor : 2 * (rate * t.num) < 2 ^ 127) :
    t.wordCount? samples rate = some (t.count samples rate) := by
  obtain ⟨hnum, hden⟩ := isValid_iff.mp ht
  have hn : 0 ≤ (samples : Int) * t.den := by positivity
  have hd : 0 ≤ (rate : Int) * t.num := by positivity
  rw [wordCount?, count]
  generalize (samples : Int) * t.den = n at hn hdividend ⊢
  generalize (rate : Int) * t.num = d at hd hdividend hdivisor ⊢
  rw [word?_of_lt hn (by omega), word?_of_lt hd (by omega)]
  simp only [Option.bind_eq_bind, Option.bind_some]
  split
  · rfl
  · have hquotient : 0 ≤ Int.tdiv (2 * n + d) (2 * d) := Int.tdiv_nonneg (by omega) (by omega)
    have hle : Int.tdiv (2 * n + d) (2 * d) ≤ 2 * n + d := Int.tdiv_le_self _ (by omega)
    rw [word?_of_lt (by omega) (by omega), Option.bind_some, word?_of_lt (by omega) hdividend,
      Option.bind_some, word?_of_lt (by omega) hdivisor, Option.bind_some,
      word?_of_lt hquotient (by omega), Option.bind_some]
    rfl

/-- A buffer of samples is too short for a word to overflow: rates have 32 bits and the terms
of a tick 63. -/
theorem wordCount?_of_le (ht : t.isValid = true) (hrate : rate < 2 ^ 32) (hnum : t.num < 2 ^ 63)
    (hden : t.den < 2 ^ 63) (hsamples : samples ≤ 2 ^ 61) :
    t.wordCount? samples rate = some (t.count samples rate) := by
  obtain ⟨hnumPos, hdenPos⟩ := isValid_iff.mp ht
  have hn : (samples : Int) * t.den ≤ 2 ^ 61 * 2 ^ 63 :=
    mul_le_mul (by exact_mod_cast hsamples) hden.le hdenPos.le (by norm_num)
  have hd : (rate : Int) * t.num ≤ 2 ^ 32 * 2 ^ 63 :=
    mul_le_mul (by exact_mod_cast hrate.le) hnum.le hnumPos.le (by norm_num)
  refine wordCount?_eq_count ht ?_ ?_
  · omega
  · omega

/-! ## Rounding -/

/-- A whole number is the nearest to a quotient; of two that are equally near, it is the greater
one. -/
structure IsNearest (x : ℚ) (k : Int) : Prop where
  /-- no whole number is nearer -/
  nearest : ∀ j : Int, |x - k| ≤ |x - j|
  /-- no greater one is as near -/
  greater : ∀ j : Int, |x - j| = |x - k| → j ≤ k

theorem isNearest_round (x : ℚ) : IsNearest x (round x) := by
  refine ⟨round_le x, fun j hj => ?_⟩
  have hclose := abs_sub_round x
  obtain ⟨-, hbelow⟩ := Set.mem_Ico.mp (round_eq_iff.mp (Eq.refl (round x)))
  by_contra hlt
  have hnext : ((round x : Int) : ℚ) + 1 ≤ j := by exact_mod_cast Int.not_le.mp hlt
  rw [← hj] at hclose
  -- a greater one is more than a half away
  have habove : (j : ℚ) - x ≤ |x - j| := by
    rw [abs_sub_comm]
    exact le_abs_self _
  linarith

theorem isNearest_count (ht : t.isValid = true) (hrate : 0 < rate) (hfits : t.Fits rate samples) :
    IsNearest (samples * t.den / (rate * t.num)) (t.count samples rate) := by
  obtain ⟨hnum, hden⟩ := isValid_iff.mp ht
  have hpos : 0 < (rate : Int) * t.num := by positivity
  have hround := isNearest_round ((samples * t.den : Int) / (rate * t.num : Int) : ℚ)
  rw [count_eq_nearest ht hrate hfits, nearest, ediv_eq_round hpos]
  push_cast at hround ⊢
  exact hround

/-! ## Fewer samples -/

theorem nearest_le_nearest (ht : t.isValid = true) (hrate : 0 < rate) {fewer more : Nat}
    (h : fewer ≤ more) : t.nearest fewer rate ≤ t.nearest more rate := by
  obtain ⟨hnum, hden⟩ := isValid_iff.mp ht
  have hpos : 0 < (rate : Int) * t.num := by positivity
  have hmul : (fewer : Int) * t.den ≤ more * t.den :=
    mul_le_mul_of_nonneg_right (by exact_mod_cast h) hden.le
  exact Int.ediv_le_ediv (by omega) (by omega)

theorem Fits.mono (ht : t.isValid = true) (hrate : 0 < rate) {fewer more : Nat}
    (hfits : t.Fits rate more) (h : fewer ≤ more) : t.Fits rate fewer :=
  (nearest_le_nearest ht hrate h).trans_lt hfits

theorem count_le_count (ht : t.isValid = true) (hrate : 0 < rate) {fewer more : Nat}
    (h : fewer ≤ more) (hfits : t.Fits rate more) :
    t.count fewer rate ≤ t.count more rate := by
  rw [count_eq_nearest ht hrate hfits, count_eq_nearest ht hrate (hfits.mono ht hrate h)]
  exact nearest_le_nearest ht hrate h

/-- Of three counts each is half a tick off at most, so two parts make up the whole but for one
tick. -/
theorem abs_count_add_sub_le (ht : t.isValid = true) (hrate : 0 < rate) {m n : Nat}
    (hfits : t.Fits rate (m + n)) :
    |t.count (m + n) rate - (t.count m rate + t.count n rate)| ≤ 1 := by
  have hwhole := abs_le.mp (abs_count_sub_duration ht hrate hfits)
  have hfirst := abs_le.mp (abs_count_sub_duration ht hrate
    (hfits.mono ht hrate (Nat.le_add_right m n)))
  have hsecond := abs_le.mp (abs_count_sub_duration ht hrate
    (hfits.mono ht hrate (Nat.le_add_left n m)))
  rw [duration_add] at hwhole
  have hlow : (-2 : ℚ) < t.count (m + n) rate - (t.count m rate + t.count n rate) := by linarith
  have hhigh : (t.count (m + n) rate - (t.count m rate + t.count n rate) : ℚ) < 2 := by linarith
  have hlow' : -2 < t.count (m + n) rate - (t.count m rate + t.count n rate) := by
    exact_mod_cast hlow
  have hhigh' : t.count (m + n) rate - (t.count m rate + t.count n rate) < 2 := by
    exact_mod_cast hhigh
  rw [abs_le]
  omega

theorem isValid_perSample (hrate : 0 < rate) : (perSample rate).isValid = true :=
  isValid_iff.mpr ⟨one_pos, Int.natCast_pos.mpr hrate⟩

/-- **Counts of ticks.** Where no word overflows, what the words hold is the count; and no word does
for as many samples as a buffer can have. Counts that fit are the nearest to the duration of the
samples in ticks, a half going up. They do not fall with more samples, they are the samples where a
tick is one, and those of two parts make up that of the whole but for one tick. -/
theorem count_rounds (ht : t.isValid = true) (hrate : 0 < rate) :
    (∀ (samples : Nat) (k : Int), t.wordCount? samples rate = some k →
      k = t.count samples rate) ∧
    (rate < 2 ^ 32 → t.num < 2 ^ 63 → t.den < 2 ^ 63 → ∀ samples ≤ 2 ^ 61,
      t.wordCount? samples rate = some (t.count samples rate)) ∧
    (∀ samples : Nat, t.Fits rate samples →
      IsNearest (samples * t.den / (rate * t.num)) (t.count samples rate)) ∧
    (∀ fewer more : Nat, fewer ≤ more → t.Fits rate more →
      t.count fewer rate ≤ t.count more rate) ∧
    (∀ samples : Nat, (perSample rate).Fits rate samples →
      (perSample rate).count samples rate = samples) ∧
    ∀ m n : Nat, t.Fits rate (m + n) →
      |t.count (m + n) rate - (t.count m rate + t.count n rate)| ≤ 1 := by
  refine ⟨fun _ _ => eq_count_of_wordCount?, fun hword hnum hden samples => ?_,
    fun _ => isNearest_count ht hrate, fun _ _ => count_le_count ht hrate, fun samples hfits => ?_,
    fun _ _ => abs_count_add_sub_le ht hrate⟩
  · exact wordCount?_of_le ht hword hnum hden
  · exact count_eq_samples (isValid_perSample hrate) hrate hfits (mul_one _)

/-- Half a tick goes up, and so do two halves, each on its own; together they make one
tick. -/
theorem count_rounds_at_half :
    let t : Tick := ⟨1, 1⟩
    t.isValid = true ∧ t.wordCount? 1 2 = some 1 ∧ t.Fits 2 (1 + 1) ∧ IsNearest (1 / 2) 1 ∧
      t.wordCount? 1 2 = some (t.count 1 2) ∧ t.count 1 2 ≤ t.count 2 2 ∧
      (perSample 2).count 1 2 = 1 ∧ |t.count (1 + 1) 2 - (t.count 1 2 + t.count 1 2)| ≤ 1 := by
  intro t
  have ht : t.isValid = true := by decide
  have hword : t.wordCount? 1 2 = some 1 := by decide
  have hfits : t.Fits 2 (1 + 1) := by decide
  obtain ⟨hwords, hbuffer, hnearest, hmono, hsample, hparts⟩ := count_rounds ht two_pos
  have hhalf := hnearest 1 (by decide)
  rw [← hwords 1 1 hword] at hhalf
  norm_num [t] at hhalf
  refine ⟨ht, hword, hfits, hhalf, ?_, hmono 1 2 one_le_two hfits, ?_, hparts 1 1 hfits⟩
  · exact hbuffer (by norm_num) (by decide) (by decide) 1 (by norm_num)
  · exact hsample 1 (by decide)

end Compander.Tick
