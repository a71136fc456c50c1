import Mathlib
import Compander.Proofs.Floating.Bits

/-!
# Rounding to the nearest double

Every number that is not a double lies between two of them, and goes to the nearer one, or to
the one with an even last digit. `Double.RoundsTo` says which numbers go to a double, and
rounding keeps to it:

* `Double.Nearest` — the nearest whole number, which there is only one of;
* `Double.Shows` — what a mantissa with a round bit and a sticky bit tells of a number, and
  that shifting and rounding keep to what is told;
* `Double.roundWithAccuracy_eq` — what rounds to a double is rounded to it;
* `Double.mul_eq`, `Double.div_eq` — so products and quotients are rounded from the exact value.

Rounding goes in two shifts with a rounding in between, and the second shift only does something
if the rounding has made one digit too many. A number that is short of digits is exact and needs
no shift; that is what the conditions on the digits say.
-/

namespace Compander.Double

open Float.Model
open Float.Model.UnpackedFloat

/-! ## Nearest whole numbers -/

/-- A whole number is nearest to a number, and even if another one is as near. -/
structure Nearest (n : ℕ) (w : ℚ) : Prop where
  /-- the number is not more than a half below -/
  lower : (n : ℚ) - 1 / 2 ≤ w
  /-- the number is not more than a half above -/
  upper : w ≤ n + 1 / 2
  /-- a number half way from the next one goes to the even one -/
  even_of_tie : w = n - 1 / 2 ∨ w = n + 1 / 2 → n % 2 = 0

/-- There is only one nearest whole number, because a tie goes to the even one. -/
theorem Nearest.unique {m n : ℕ} {w : ℚ} (hm : Nearest m w) (hn : Nearest n w) : m = n := by
  wlog hlt : m < n generalizing m n
  · rcases Nat.lt_trichotomy m n with h | h | h
    · exact absurd h hlt
    · exact h
    · exact (this hn hm h).symm
  -- two of them are neighbours, and the number lies half way between
  have hcast : (m : ℚ) + 1 ≤ n := by exact_mod_cast hlt
  have hmw : w = m + 1 / 2 := le_antisymm hm.upper (by linarith [hn.lower])
  have hnw : w = n - 1 / 2 := le_antisymm (by linarith [hm.upper]) hn.lower
  have hnext : n = m + 1 := by
    have : (n : ℚ) = m + 1 := by linarith
    exact_mod_cast this
  have hmeven := hm.even_of_tie (.inr hmw)
  have hneven := hn.even_of_tie (.inl hnw)
  omega

theorem nearest_self (n : ℕ) : Nearest n n :=
  ⟨by linarith, by linarith, by rintro (h | h) <;> linarith⟩

/-! ## Extended mantissas -/

/-- What a mantissa and its two more bits tell of a number: the round bit stands for a half,
and the sticky bit for something less than that. -/
def Shows (em : ExtendedMantissa) (w : ℚ) : Prop :=
  let low : ℚ := em.mantissa + if em.roundBit then 1 / 2 else 0
  if em.stickyBit then low < w ∧ w < low + 1 / 2 else w = low

variable {em : ExtendedMantissa} {w : ℚ}

/-- The mantissa is the whole part, so the number lies between it and the next. -/
theorem Shows.bounds (h : Shows em w) : (em.mantissa : ℚ) ≤ w ∧ w < em.mantissa + 1 := by
  obtain ⟨m, round, sticky⟩ := em
  cases round <;> cases sticky <;> simp [Shows] at h ⊢ <;> constructor <;> linarith

/-- The rounded mantissa is nearest, as the round bit and the sticky bit tell on which side of
a half the rest lies. -/
theorem Shows.nearest (h : Shows em w) : Nearest em.roundedMantissa w := by
  obtain ⟨m, round, sticky⟩ := em
  cases round with
  | false =>
    have hrounded : ExtendedMantissa.roundedMantissa ⟨m, false, sticky⟩ = m := by
      cases sticky <;> rfl
    rw [hrounded]
    cases sticky <;> simp [Shows] at h
    · rw [h]
      exact nearest_self m
    · exact ⟨by linarith, by linarith, by rintro (htie | htie) <;> linarith⟩
  | true =>
    cases sticky <;> simp [Shows] at h
    · -- half way, it is the parity of the mantissa that decides
      change Nearest (m + m % 2) w
      rcases Nat.mod_two_eq_zero_or_one m with heven | hodd
      · rw [heven]
        exact ⟨by push_cast; linarith, by push_cast; linarith, fun _ => heven⟩
      · rw [hodd]
        exact ⟨by push_cast; linarith, by push_cast; linarith, fun _ => by omega⟩
    · change Nearest (m + 1) w
      exact ⟨by push_cast; linarith, by push_cast; linarith, by
        push_cast
        rintro (htie | htie) <;> linarith⟩

/-- One place less shows half the number: the last digit becomes the round bit, and the old
round bit goes into the sticky one. -/
theorem Shows.shiftRightOne (h : Shows em w) : Shows em.shiftRightOne (w / 2) := by
  obtain ⟨m, round, sticky⟩ := em
  have hlow : ((m / 2 : ℕ) : ℚ) + (if m % 2 != 0 then 1 / 2 else 0) = m / 2 := by
    have hm : (m : ℚ) = 2 * (m / 2 : ℕ) + (m % 2 : ℕ) := by
      exact_mod_cast (Nat.div_add_mod m 2).symm
    rcases Nat.mod_two_eq_zero_or_one m with hlast | hlast <;> rw [hlast] at hm ⊢ <;>
      simp at hm ⊢ <;> linarith
  change if (round || sticky) = true then
    ((m / 2 : ℕ) : ℚ) + (if m % 2 != 0 then 1 / 2 else 0) < w / 2 ∧
      w / 2 < (m / 2 : ℕ) + (if m % 2 != 0 then 1 / 2 else 0) + 1 / 2
    else w / 2 = (m / 2 : ℕ) + if m % 2 != 0 then 1 / 2 else 0
  rw [hlow]
  cases round <;> cases sticky <;> simp [Shows] at h ⊢
  · linarith
  · constructor <;> linarith
  · constructor <;> linarith
  · constructor <;> linarith

/-- Some places less show the number divided by a power of two, by one place after another. -/
theorem Shows.shiftRight (h : Shows em w) (k : ℕ) : Shows (em >>> k) (w / 2 ^ k) := by
  induction k with
  | zero =>
    rw [pow_zero, div_one]
    exact h
  | succ k ih =>
    have hstep := ih.shiftRightOne
    rw [div_div, ← pow_succ] at hstep
    exact hstep

/-- A whole number shows itself, with nothing after the point. -/
theorem shows_exact (m : ℕ) : Shows (.ofMantissaAndAccuracy m .exact) m := by
  simp [Shows, ExtendedMantissa.ofMantissaAndAccuracy]

/-- A quotient with the accuracy of what is left over shows the exact quotient, so no digit of
the remainder is missed. -/
theorem shows_div (n : ℕ) {d : ℕ} (hd : 0 < d) :
    Shows (.ofMantissaAndAccuracy (n / d) (accuracyOfFraction (n % d) d)) ((n : ℚ) / d) := by
  have hdq : (0 : ℚ) < d := by exact_mod_cast hd
  have hrest : (n : ℚ) = d * (n / d : ℕ) + (n % d : ℕ) := by
    exact_mod_cast (Nat.div_add_mod n d).symm
  have hless : ((n % d : ℕ) : ℚ) < d := by exact_mod_cast Nat.mod_lt n hd
  rw [accuracyOfFraction]
  split
  · rename_i hzero
    rw [hzero] at hrest
    simp only [Shows, ExtendedMantissa.ofMantissaAndAccuracy]
    simp
    rw [div_eq_iff hdq.ne', hrest]
    push_cast
    ring
  · rename_i hne
    have hpos : (0 : ℚ) < (n % d : ℕ) := by exact_mod_cast Nat.pos_of_ne_zero hne
    rcases Nat.lt_trichotomy (2 * (n % d)) d with hhalf | hhalf | hhalf
    · have hhalf' : 2 * ((n % d : ℕ) : ℚ) < d := by exact_mod_cast hhalf
      rw [Nat.compare_eq_lt.mpr hhalf]
      simp [Shows, ExtendedMantissa.ofMantissaAndAccuracy]
      rw [lt_div_iff₀ hdq, div_lt_iff₀ hdq]
      constructor <;> linarith
    · have hhalf' : 2 * ((n % d : ℕ) : ℚ) = d := by exact_mod_cast hhalf
      rw [Nat.compare_eq_eq.mpr hhalf]
      simp [Shows, ExtendedMantissa.ofMantissaAndAccuracy]
      rw [div_eq_iff hdq.ne']
      linarith
    · have hhalf' : (d : ℚ) < 2 * ((n % d : ℕ) : ℚ) := by exact_mod_cast hhalf
      rw [Nat.compare_eq_gt.mpr hhalf]
      simp [Shows, ExtendedMantissa.ofMantissaAndAccuracy]
      rw [lt_div_iff₀ hdq, div_lt_iff₀ hdq]
      constructor <;> linarith

/-! ## Rounding -/

/-- The numbers that round to `m · 2 ^ e`. Below a power of two the doubles lie twice as
dense. -/
structure RoundsTo (m : ℕ) (e : ℤ) (v : ℚ) : Prop where
  /-- the digits are nearest -/
  nearest : Nearest m (v / 2 ^ e)
  /-- below a power of two the next double is half as far -/
  dense : m = 2 ^ 52 → -1074 < e → (m : ℚ) - 1 / 4 ≤ v / 2 ^ e

theorem targetExponent_eq (m : ℕ) (e : ℤ) :
    Format.binary64.targetExponent (totalExponent m e) = max (m.log2 + e - 52) (-1074) := by
  simp only [Format.targetExponent, totalExponent, Format.mantissaBits, Format.minExponent]
  norm_num
  omega

/-- Digits that fit are not shifted, and neither is their exponent changed. -/
theorem shiftToTargetExponent_of_lt {m : ℕ} {e : ℤ} (hm : m < 2 ^ 53) (he : -1074 ≤ e) :
    shiftToTargetExponent .binary64 m e .exact = (⟨m, false, false⟩, e) := by
  have hlog : m.log2 ≤ 52 := by
    by_cases hzero : m = 0
    · simp [hzero]
    · exact Nat.le_of_lt_succ ((Nat.log2_lt hzero).mpr hm)
  have hshift : (max ((m.log2 : ℤ) + e - 52) (-1074) - e).toNat = 0 := by omega
  rw [shiftToTargetExponent, targetExponent_eq, shiftToExponent, hshift]
  simp only [Int.ofNat_zero, add_zero, Prod.mk.injEq]
  exact ⟨rfl, by simp⟩

/-- One digit too many, as rounding may make it, is shifted out without a loss. -/
theorem shiftToTargetExponent_two_pow {e : ℤ} (he : -1074 ≤ e) :
    shiftToTargetExponent .binary64 (2 ^ 53) e .exact = (⟨2 ^ 52, false, false⟩, e + 1) := by
  have hshift : (max (((2 ^ 53 : ℕ).log2 : ℤ) + e - 52) (-1074) - e).toNat = 1 := by
    rw [Nat.log2_two_pow]
    omega
  rw [shiftToTargetExponent, targetExponent_eq, shiftToExponent, hshift]
  rfl

/-- A first shift far enough shows the number at the target exponent, which is the one of its
first digit or the least of all. -/
theorem shows_shiftToTargetExponent {m : ℕ} {e : ℤ} {a : Accuracy} {v : ℚ}
    (hshows : Shows (.ofMantissaAndAccuracy m a) (v / 2 ^ e))
    (he : e ≤ max (m.log2 + e - 52) (-1074)) :
    Shows (shiftToTargetExponent .binary64 m e a).1 (v / 2 ^ max (m.log2 + e - 52) (-1074)) ∧
      (shiftToTargetExponent .binary64 m e a).2 = max (m.log2 + e - 52) (-1074) := by
  rw [shiftToTargetExponent, targetExponent_eq, shiftToExponent]
  generalize max ((m.log2 : ℤ) + e - 52) (-1074) = t at he ⊢
  obtain ⟨k, rfl⟩ := Int.le.dest he
  have hk : (e + k - e).toNat = k := by omega
  simp only [hk, and_true]
  rw [zpow_add₀ two_ne_zero, zpow_natCast, ← div_div]
  exact hshows.shiftRight k

theorem two_zpow_pos (k : ℤ) : (0 : ℚ) < 2 ^ k :=
  zpow_pos two_pos k

theorem lt_of_two_zpow_lt {k l : ℤ} (h : (2 : ℚ) ^ k < 2 ^ l) : k < l :=
  (zpow_lt_zpow_iff_right₀ one_lt_two).mp h

section Magnitude

variable {m M : ℕ} {e E : ℤ} {a : Accuracy} {v : ℚ}

theorem mantissa_ofMantissaAndAccuracy (m : ℕ) (a : Accuracy) :
    (ExtendedMantissa.ofMantissaAndAccuracy m a).mantissa = m := by
  cases a with
  | exact => rfl
  | inexact order => cases order <;> rfl

/-- What a mantissa shows is at least the power of two of its leading digit, -/
theorem Shows.two_zpow_le (h : Shows (.ofMantissaAndAccuracy m a) (v / 2 ^ e)) (hm : m ≠ 0) :
    2 ^ ((m.log2 : ℤ) + e) ≤ v := by
  have hlow := h.bounds.1
  rw [mantissa_ofMantissaAndAccuracy, le_div_iff₀ (two_zpow_pos e)] at hlow
  refine le_trans ?_ hlow
  rw [zpow_add₀ two_ne_zero]
  gcongr
  exact_mod_cast Nat.log2_self_le hm

/-- and less than the next one, so the first digit of the number is known. -/
theorem Shows.lt_two_zpow (h : Shows (.ofMantissaAndAccuracy m a) (v / 2 ^ e)) :
    v < 2 ^ ((m.log2 : ℤ) + 1 + e) := by
  have hhigh := h.bounds.2
  rw [mantissa_ofMantissaAndAccuracy, div_lt_iff₀ (two_zpow_pos e)] at hhigh
  refine hhigh.trans_le ?_
  rw [zpow_add₀ two_ne_zero]
  gcongr
  exact_mod_cast Nat.lt_log2_self

/-- What rounds to a number of all digits is more than half the power of two of its leading
digit, -/
theorem RoundsTo.two_zpow_lt (h : RoundsTo M E v) (hfull : 2 ^ 52 ≤ M) : 2 ^ (51 + E) < v := by
  have hlow := (le_div_iff₀ (two_zpow_pos E)).mp h.nearest.lower
  have hfull' : (2 : ℚ) ^ 52 ≤ M := by exact_mod_cast hfull
  refine lt_of_lt_of_le ?_ hlow
  rw [zpow_add₀ two_ne_zero]
  exact mul_lt_mul_of_pos_right (by norm_num; linarith) (two_zpow_pos E)

/-- and less than the next one, which rounding may have reached. -/
theorem RoundsTo.lt_two_zpow (h : RoundsTo M E v) (hlt : M < 2 ^ 53) : v < 2 ^ (53 + E) := by
  have hhigh := (div_le_iff₀ (two_zpow_pos E)).mp h.nearest.upper
  have hlt' : (M : ℚ) + 1 ≤ 2 ^ 53 := by exact_mod_cast hlt
  refine hhigh.trans_lt ?_
  rw [zpow_add₀ two_ne_zero]
  exact mul_lt_mul_of_pos_right (by norm_num at hlt' ⊢; linarith) (two_zpow_pos E)

/-- The digits that are kept are those of the double; or, just below a power of two, one more. -/
theorem target_cases (hM : Canonical M E) (hv : RoundsTo M E v)
    (hshows : Shows (.ofMantissaAndAccuracy m a) (v / 2 ^ e))
    (henough : 52 ≤ m.log2 ∨ e ≤ -1074) :
    max ((m.log2 : ℤ) + e - 52) (-1074) = E ∨
      (max ((m.log2 : ℤ) + e - 52) (-1074) = E - 1 ∧ -1074 < E ∧ M = 2 ^ 52 ∧
        v / 2 ^ E < 2 ^ 52) := by
  -- the number lies between two powers of two, by its digits here and by its digits there
  have hbelow := hshows.lt_two_zpow
  have habove : m ≠ 0 → (m.log2 : ℤ) + e < 53 + E := fun hm =>
    lt_of_two_zpow_lt ((hshows.two_zpow_le hm).trans_lt (hv.lt_two_zpow hM.lt))
  by_cases htarget : max ((m.log2 : ℤ) + e - 52) (-1074) = E
  · exact .inl htarget
  · -- only a number of all digits can be taken for one with its last place lower
    have hleast := hM.least
    have hE : -1074 < E := by
      by_contra hnot
      have hE : E = -1074 := by omega
      rcases Nat.eq_zero_or_pos m with rfl | hm
      · simp only [Nat.log2_zero] at henough htarget
        omega
      · have := habove hm.ne'
        omega
    have hfull : 2 ^ 52 ≤ M := hM.normal.resolve_right (by omega)
    have hover : 51 + E < m.log2 + 1 + e :=
      lt_of_two_zpow_lt ((hv.two_zpow_lt hfull).trans hbelow)
    have hm : m ≠ 0 := by
      rintro rfl
      simp only [Nat.log2_zero] at henough hover
      omega
    have hunder := habove hm
    have hless : v / 2 ^ E < 2 ^ 52 := by
      rw [div_lt_iff₀ (two_zpow_pos E)]
      rw [show (m.log2 : ℤ) + 1 + e = 52 + E by omega, zpow_add₀ two_ne_zero] at hbelow
      exact_mod_cast hbelow
    refine .inr ⟨by omega, hE, ?_, hless⟩
    by_contra hne
    have hmore : (2 : ℚ) ^ 52 + 1 ≤ M := by
      exact_mod_cast Nat.lt_of_le_of_ne hfull (Ne.symm hne)
    linarith [hv.nearest.lower]

/-- The first rounding finds the digits; or, just below a power of two, twice as many. -/
theorem roundedMantissa_eq (hM : Canonical M E) (hv : RoundsTo M E v)
    (hshows : Shows (.ofMantissaAndAccuracy m a) (v / 2 ^ e))
    (henough : 52 ≤ m.log2 ∨ e ≤ -1074) :
    let first := shiftToTargetExponent .binary64 m e a
    (first.1.roundedMantissa = M ∧ first.2 = E) ∨
      (first.1.roundedMantissa = 2 ^ 53 ∧ first.2 = E - 1 ∧ M = 2 ^ 52 ∧ -1074 < E) := by
  have he : e ≤ max (m.log2 + e - 52) (-1074) := by omega
  obtain ⟨hfirst, hsecond⟩ := shows_shiftToTargetExponent hshows he
  have hnearest := hfirst.nearest
  obtain htarget | ⟨htarget, hE, hpower, hless⟩ := target_cases hM hv hshows henough
  · left
    rw [htarget] at hnearest hsecond
    exact ⟨hnearest.unique hv.nearest, hsecond⟩
  · right
    rw [htarget] at hnearest hsecond
    have hhalf : v / 2 ^ (E - 1) = 2 * (v / 2 ^ E) := by
      rw [zpow_sub_one₀ two_ne_zero]
      field_simp
    refine ⟨hnearest.unique (?_ : Nearest (2 ^ 53) _), hsecond, hpower, hE⟩
    have hdense := hv.dense hpower hE
    rw [hpower] at hdense
    push_cast at hdense
    rw [hhalf]
    exact ⟨by push_cast; linarith, by push_cast; linarith, fun _ => by norm_num⟩

end Magnitude

/-- **Rounding.** What rounds to a double is rounded to it, if the digits that are shown are
enough to tell. -/
theorem roundWithAccuracy_eq {s : Sign} {m M : ℕ} {e E : ℤ} {a : Accuracy} {v : ℚ}
    (hM : Canonical M E) (hv : RoundsTo M E v)
    (hshows : Shows (.ofMantissaAndAccuracy m a) (v / 2 ^ e))
    (henough : 52 ≤ m.log2 ∨ e ≤ -1074) :
    roundWithAccuracy .binary64 s m e a = .finite s M E hM.pos := by
  rw [roundWithAccuracy]
  rcases roundedMantissa_eq hM hv hshows henough with
    ⟨hdigits, hplace⟩ | ⟨hdigits, hplace, rfl, hE⟩
  · simp only [hdigits, hplace, shiftToTargetExponent_of_lt hM.lt hM.least, hM.pos.ne', dite_false]
  · have hplace' : -1074 ≤ E - 1 := by omega
    simp only [hdigits, hplace, shiftToTargetExponent_two_pow hplace', sub_add_cancel]
    rfl

/-! ## Products and quotients -/

/-- **Products** are rounded from the exact value, so a number that rounds to a double need
not be written out. -/
theorem mul_eq {s t : Sign} {m m' M : ℕ} {e e' E : ℤ} {h : 0 < m} {h' : 0 < m'}
    (hM : Canonical M E) (hv : RoundsTo M E (m * m' * 2 ^ (e + e')))
    (henough : 52 ≤ (m * m').log2 ∨ e + e' ≤ -1074) :
    mul .binary64 (.finite s m e h) (.finite t m' e' h') = .finite (s * t) M E hM.pos := by
  refine roundWithAccuracy_eq hM hv ?_ henough
  rw [mul_div_cancel_right₀ _ (zpow_pos two_pos _).ne']
  exact_mod_cast shows_exact (m * m')

/-- A quotient is worked out to as many digits as a double has, or to the last place that a
double has. -/
theorem divCore_enough {m m' : ℕ} (e e' : ℤ) (h : 0 < m) (h' : 0 < m') :
    let core := divCore .binary64 m e m' e'
    52 ≤ core.1.log2 ∨ core.2.1 ≤ -1074 := by
  simp only [divCore, Format.targetExponent, totalExponent, Format.mantissaBits,
    Format.minExponent, Nat.shiftLeft_eq]
  norm_num
  set target : ℤ := min (e - e') (max ((m.log2 : ℤ) + 1 + e - (m'.log2 + 1 + e') - 53) (-1074))
    with htarget
  by_cases hlow : target ≤ -1074
  · exact .inr (by omega)
  · left
    have hshift : m'.log2 + 53 ≤ m.log2 + (e - e' - target).toNat := by omega
    have hquotient : 2 ^ 52 ≤ m * 2 ^ (e - e' - target).toNat / m' := by
      rw [Nat.le_div_iff_mul_le h']
      calc 2 ^ 52 * m' ≤ 2 ^ 52 * 2 ^ (m'.log2 + 1) := by
            gcongr
            exact Nat.lt_log2_self.le
        _ = 2 ^ (m'.log2 + 53) := by rw [← pow_add]; congr 1; omega
        _ ≤ 2 ^ (m.log2 + (e - e' - target).toNat) := by gcongr; norm_num
        _ = 2 ^ m.log2 * 2 ^ (e - e' - target).toNat := pow_add ..
        _ ≤ m * 2 ^ (e - e' - target).toNat := by
            gcongr
            exact Nat.log2_self_le h.ne'
    exact (Nat.le_log2 (by omega)).mpr hquotient

/-- A quotient worked out so far shows the exact quotient, at the exponent that it was worked
out for. -/
theorem shows_divCore (m : ℕ) {m' : ℕ} (e e' : ℤ) (h' : 0 < m') :
    let core := divCore .binary64 m e m' e'
    Shows (.ofMantissaAndAccuracy core.1 core.2.2)
      ((m : ℚ) * 2 ^ e / (m' * 2 ^ e') / 2 ^ core.2.1) := by
  dsimp only [divCore]
  set target : ℤ := min (e - e') _
  obtain ⟨k, hk⟩ := Int.le.dest (min_le_left _ _ : target ≤ e - e')
  have hvalue : (m : ℚ) * 2 ^ e / (m' * 2 ^ e') / 2 ^ target = (m <<< k : ℕ) / m' := by
    rw [Nat.shiftLeft_eq, show e = target + k + e' by omega, zpow_add₀ two_ne_zero,
      zpow_add₀ two_ne_zero, zpow_natCast]
    have : (m' : ℚ) ≠ 0 := by exact_mod_cast h'.ne'
    push_cast
    field_simp
  rw [hvalue, show (e - e' - target).toNat = k by omega]
  exact shows_div _ h'

/-- **Quotients** are rounded from the exact value, with as many digits worked out as rounding
needs. -/
theorem div_eq {s t : Sign} {m m' M : ℕ} {e e' E : ℤ} {h : 0 < m} {h' : 0 < m'}
    (hM : Canonical M E) (hv : RoundsTo M E (m * 2 ^ e / (m' * 2 ^ e'))) :
    div .binary64 (.finite s m e h) (.finite t m' e' h') = .finite (s / t) M E hM.pos :=
  roundWithAccuracy_eq hM hv (shows_divCore m e e' h') (divCore_enough e e' h h')

end Compander.Double
