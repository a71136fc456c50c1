import Mathlib
import Compander.Proofs.Floating.Values
import Compander.Wave.Sample

/-!
# Samples in bytes and back

A number comes back from its bytes if it fits them, and a whole number of a depth comes back from
the sample that it stands for:

* `Wave.valueOf_field`, `Wave.signedValueOf_signedField` — numbers without and with a sign;
* `Wave.exists_integerReader` — whole numbers of a depth;
* `Wave.value_level` — the sample that a whole number stands for;
* `Wave.quantize_level` — the whole number of that sample;
* `Wave.rounded_level_quantize` — how far a sample moves when it is made a whole number.

A whole number is cut toward zero when a sample is scaled to it, so a sample moves by less than one
unit, toward silence. Full scale is not symmetric: one more unit is below zero than above it, and
the greatest sample that a depth has is a unit short of one.
-/

namespace Compander.Wave

open Single (value)

/-! ## Numbers -/

theorem length_field (width n : ℕ) : (field width n).length = width := by
  induction width generalizing n with
  | zero => rfl
  | succ width ih => rw [field, List.length_cons, ih]

/-- A number comes back from its bytes without what does not fit them, which is all but its
remainder. -/
theorem valueOf_field (width n : ℕ) : valueOf (field width n) = n % 256 ^ width := by
  induction width generalizing n with
  | zero => rw [pow_zero, Nat.mod_one]; rfl
  | succ width ih =>
    have hbyte : (n % 256).toUInt8.toNat = n % 256 :=
      Nat.mod_eq_of_lt (Nat.mod_lt n (by decide))
    rw [field, valueOf, hbyte, ih, pow_succ', Nat.mod_mul]

theorem valueOf_field_of_lt {width n : ℕ} (h : n < 256 ^ width) : valueOf (field width n) = n := by
  rw [valueOf_field, Nat.mod_eq_of_lt h]

/-- The bytes of a number with a sign hold what is left of it below a power. -/
theorem valueOf_signedField (width : ℕ) (n : ℤ) :
    (valueOf (signedField width n) : ℤ) = n % 256 ^ width := by
  have hpow : Nat.pow 256 width = 256 ^ width := rfl
  have hpos : (0 : ℤ) < (256 ^ width : ℕ) := by positivity
  have hnonneg := Int.emod_nonneg n hpos.ne'
  have hless := Int.emod_lt_of_pos n hpos
  rw [signedField, hpow, valueOf_field_of_lt (by omega), Int.toNat_of_nonneg hnonneg]
  push_cast
  rfl

/-- A number with a sign comes back from its bytes if it is in the range of so many. -/
theorem signedValueOf_signedField {width : ℕ} {n : ℤ} (hlow : -256 ^ width ≤ 2 * n)
    (hhigh : 2 * n < 256 ^ width) : signedValueOf (signedField width n) = n := by
  have hlength : (signedField width n).length = width := length_field ..
  have hpow : ((Nat.pow 256 width : ℕ) : ℤ) = 256 ^ width := by
    rw [Nat.pow_eq]
    push_cast
    rfl
  rw [signedValueOf, hlength, valueOf_signedField, ← hpow, Int.emod_bmod]
  apply Int.bmod_eq_of_le_mul_two
  · rw [hpow]
    omega
  · rw [hpow]
    omega

/-! ## Whole numbers of a depth -/

/-- A whole number is in the range of a depth. -/
def InDepth (bits : ℕ) (n : ℤ) : Prop :=
  -2 ^ (bits - 1) ≤ n ∧ n < 2 ^ (bits - 1)

theorem natCast_fullScale (bits : ℕ) : (fullScale bits : ℤ) = 2 ^ (bits - 1) := by
  rw [fullScale, Nat.pow_eq]
  push_cast
  rfl

theorem inDepth_hold (bits : ℕ) (n : ℤ) : InDepth bits (hold bits n) := by
  have hpos : (0 : ℤ) < 2 ^ (bits - 1) := by positivity
  rw [InDepth, hold, natCast_fullScale]
  omega

theorem hold_of_inDepth {bits : ℕ} {n : ℤ} (h : InDepth bits n) : hold bits n = n := by
  obtain ⟨hlow, hhigh⟩ := h
  rw [hold, natCast_fullScale]
  omega

/-- Every sample is made a whole number of the depth, also those out of range and those that
are not numbers. -/
theorem inDepth_quantize (bits : ℕ) (x : Float32) : InDepth bits (quantize bits x) := by
  have hpos : (0 : ℤ) < 2 ^ (bits - 1) := by positivity
  rw [quantize]
  split
  · exact inDepth_hold ..
  · rw [natCast_fullScale, InDepth]
    split
    · omega
    · split <;> omega

/-- The whole numbers of a depth come back from their bytes, the sign included. -/
theorem exists_integerReader {bits : ℕ} (hbits : bits ∈ [8, 16, 24]) :
    ∃ read, integerReader ((bits + 7) / 8) bits = .ok read ∧
      ∀ n, InDepth bits n → read (encodeInteger ((bits + 7) / 8) n) = n := by
  simp only [List.mem_cons, List.not_mem_nil, or_false] at hbits
  rcases hbits with rfl | rfl | rfl
  · refine ⟨_, rfl, fun n hn => ?_⟩
    obtain ⟨hlow, hhigh⟩ := hn
    change (valueOf (signedField 1 (n + 128)) : ℤ) - 128 = n
    rw [valueOf_signedField]
    norm_num at *
    omega
  · refine ⟨_, rfl, fun n hn => ?_⟩
    obtain ⟨hlow, hhigh⟩ := hn
    exact signedValueOf_signedField (by norm_num at *; omega) (by norm_num at *; omega)
  · refine ⟨_, rfl, fun n hn => ?_⟩
    obtain ⟨hlow, hhigh⟩ := hn
    exact signedValueOf_signedField (by norm_num at *; omega) (by norm_num at *; omega)

/-! ## Samples as whole numbers -/

/-- The sample that a whole number stands for is that part of the power of two. -/
theorem value_level {bits : ℕ} {n : ℤ} (hbits : bits ≤ 24) (hn : InDepth bits n) :
    ∃ b, Binary.ofSingle? (level bits n) = some b ∧ b.toRat = n / 2 ^ (bits - 1) := by
  obtain ⟨hlow, hhigh⟩ := hn
  have hpow : (2 : ℤ) ^ (bits - 1) ≤ 2 ^ 23 := pow_le_pow_right₀ (by norm_num) (by omega)
  have hmantissa : n.natAbs < 2 ^ 24 := by
    omega
  obtain ⟨b, hb, hvalue⟩ := Single.exists_ofSingle?_toSingle
    (b := (Binary.ofInt n).scale (-(bits - 1 : ℕ))) hmantissa
    (by simp only [Binary.scale, Binary.ofInt]; omega)
    (by simp only [Binary.scale, Binary.ofInt]; omega)
  refine ⟨b, hb, ?_⟩
  rw [hvalue, Binary.toRat_scale, Binary.toRat_ofInt, zpow_neg, zpow_natCast, div_eq_mul_inv]

/-- **Whole numbers.** A whole number of a depth comes back from the sample that it stands for. -/
theorem quantize_level {bits : ℕ} {n : ℤ} (hbits : bits ≤ 24) (hn : InDepth bits n) :
    quantize bits (level bits n) = n := by
  obtain ⟨b, hb, hvalue⟩ := value_level hbits hn
  have hscaled : (b.scale (bits - 1 : ℕ)).toRat = n := by
    rw [Binary.toRat_scale, hvalue, zpow_natCast, div_mul_cancel₀ _ (by positivity)]
  rw [quantize, hb]
  simp only
  rw [Binary.truncate_intCast hscaled, hold_of_inDepth hn]

/-- What becomes of a sample that is made a whole number of a depth and then a sample again. -/
structure Rounded (bits : ℕ) (x y : Float32) : Prop where
  /-- it is a whole number of steps -/
  multiple : ∃ n : ℤ, value y = n / 2 ^ (bits - 1)
  /-- in range it moves by one step at most -/
  near : |value x| ≤ 1 → |value y - value x| ≤ 1 / 2 ^ (bits - 1)
  /-- above the range it becomes the greatest -/
  above : 1 < value x → value y = 1 - 1 / 2 ^ (bits - 1)
  /-- below the range it becomes the least -/
  below : value x < -1 → value y = -1

section quantize

variable {bits : ℕ} {x : Float32} {b : Binary}

theorem quantize_of_ofSingle? (h : Binary.ofSingle? x = some b) :
    quantize bits x = hold bits (b.scale (bits - 1 : ℕ)).truncate := by
  rw [quantize, h]

theorem toRat_scale_depth (b : Binary) (bits : ℕ) :
    (b.scale (bits - 1 : ℕ)).toRat = b.toRat * 2 ^ (bits - 1) := by
  rw [Binary.toRat_scale, zpow_natCast]

/-- A sample above the range is made the greatest whole number, and nothing wraps around. -/
theorem quantize_of_one_lt (h : Binary.ofSingle? x = some b) (hrange : 1 < b.toRat) :
    quantize bits x = 2 ^ (bits - 1) - 1 := by
  have hpos : (0 : ℚ) < 2 ^ (bits - 1) := by positivity
  have htop : 2 ^ (bits - 1) ≤ (b.scale (bits - 1 : ℕ)).truncate := by
    apply Binary.le_truncate
    rw [toRat_scale_depth]
    push_cast
    nlinarith
  have hleast : (0 : ℤ) < 2 ^ (bits - 1) := by positivity
  rw [quantize_of_ofSingle? h, hold, natCast_fullScale]
  omega

/-- A sample below the range is made the least whole number, which has no counterpart
above. -/
theorem quantize_of_lt_neg_one (h : Binary.ofSingle? x = some b) (hrange : b.toRat < -1) :
    quantize bits x = -2 ^ (bits - 1) := by
  have hpos : (0 : ℚ) < 2 ^ (bits - 1) := by positivity
  have hbottom : (b.scale (bits - 1 : ℕ)).truncate ≤ -2 ^ (bits - 1) := by
    apply Binary.truncate_le
    rw [toRat_scale_depth]
    push_cast
    nlinarith
  have hleast : (0 : ℤ) < 2 ^ (bits - 1) := by positivity
  rw [quantize_of_ofSingle? h, hold, natCast_fullScale]
  omega

/-- A sample in range is cut to the whole number before or after it. Only `1` is held below it. -/
theorem abs_quantize_sub_le (h : Binary.ofSingle? x = some b) (hrange : |b.toRat| ≤ 1) :
    |(quantize bits x : ℚ) - b.toRat * 2 ^ (bits - 1)| ≤ 1 := by
  obtain ⟨hlow, hhigh⟩ := abs_le.mp hrange
  have hpos : (0 : ℚ) < 2 ^ (bits - 1) := by positivity
  have hscaled := toRat_scale_depth b bits
  have hmoved := abs_lt.mp (Binary.abs_truncate_sub_lt (b.scale (bits - 1 : ℕ)))
  have hleast : -2 ^ (bits - 1) ≤ (b.scale (bits - 1 : ℕ)).truncate := by
    apply Binary.le_truncate
    rw [hscaled]
    push_cast
    nlinarith
  have htop : (b.scale (bits - 1 : ℕ)).truncate ≤ 2 ^ (bits - 1) := by
    apply Binary.truncate_le
    rw [hscaled]
    push_cast
    nlinarith
  rw [hscaled] at hmoved
  rw [quantize_of_ofSingle? h, abs_le]
  rcases htop.lt_or_eq with hless | hone
  · rw [hold_of_inDepth ⟨hleast, hless⟩]
    constructor <;> linarith [hmoved.1, hmoved.2]
  · have hpos' : (0 : ℤ) < 2 ^ (bits - 1) := by positivity
    have hheld : hold bits (2 ^ (bits - 1)) = 2 ^ (bits - 1) - 1 := by
      rw [hold, natCast_fullScale]
      omega
    rw [hone] at hmoved ⊢
    rw [hheld]
    push_cast at hmoved ⊢
    constructor <;> nlinarith [hmoved.1, hmoved.2]

end quantize

/-- **Rounding.** What becomes of a finite sample that is made a whole number of a depth. -/
theorem rounded_level_quantize {bits : ℕ} (hbits : bits ≤ 24) {x : Float32}
    (hx : x.isFinite = true) : Rounded bits x (level bits (quantize bits x)) := by
  obtain ⟨b, hb⟩ := Single.isFinite_iff_ofSingle?.mp hx
  obtain ⟨b', hb', hvalue⟩ := value_level hbits (inDepth_quantize bits x)
  have hpos : (0 : ℚ) < 2 ^ (bits - 1) := by positivity
  have hx := Single.value_of_ofSingle? hb
  have hy := (Single.value_of_ofSingle? hb').trans hvalue
  refine ⟨⟨_, hy⟩, fun hrange => ?_, fun hrange => ?_, fun hrange => ?_⟩
  · have hmoved : |(quantize bits x : ℚ) - b.toRat * 2 ^ (bits - 1)| ≤ 1 :=
      abs_quantize_sub_le hb (hx ▸ hrange)
    have hsteps : (quantize bits x : ℚ) / 2 ^ (bits - 1) - b.toRat =
        (quantize bits x - b.toRat * 2 ^ (bits - 1)) / 2 ^ (bits - 1) := by
      field_simp
    rw [hy, hx, hsteps, abs_div, abs_of_pos hpos]
    exact div_le_div_of_nonneg_right hmoved hpos.le
  · rw [hy, quantize_of_one_lt hb (hx ▸ hrange)]
    push_cast
    field_simp
  · rw [hy, quantize_of_lt_neg_one hb (hx ▸ hrange)]
    push_cast
    field_simp

end Compander.Wave
