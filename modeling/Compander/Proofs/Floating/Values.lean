import Mathlib
import Compander.Binary
import Compander.Floating
import Compander.Proofs.Floating.Packing
import Compander.Proofs.Floating.Single

/-!
# Values

The exact view of a finite single is a fraction, and a fraction with few enough digits is the value
of a single:

* `Binary.toRat` — the number that a binary number is;
* `Binary.truncate_eq` — its whole part, cut toward zero;
* `Binary.exists_decode_encode` — few digits come back from the bits of a single;
* `Single.ofBits_toBits` — a single comes back from its bits;
* `Single.value` — the number that a finite single is.

Samples are stored as whole numbers and as the bits of singles, and read back as singles. Whole
numbers of no more than twenty-four digits are exact on the way, and the whole part is taken
toward zero, so the sign of a sample can be left aside until the end.
-/

namespace Compander

/-- A power with a whole exponent is a fraction of two powers, one of which is one. -/
theorem zpow_eq_div {base : ℚ} (h : base ≠ 0) (k : ℤ) :
    base ^ k = base ^ k.toNat / base ^ (-k).toNat := by
  conv_lhs => rw [show k = k.toNat - (-k).toNat by omega]
  rw [zpow_sub₀ h, zpow_natCast, zpow_natCast]

namespace Binary

variable {b : Binary}

/-! ## Binary numbers as fractions -/

/-- The number that a binary number is. -/
def toRat (b : Binary) : ℚ :=
  (if b.negative then -1 else 1) * (b.mantissa * 2 ^ b.exponent)

theorem toRat_of_mantissa_eq_zero (h : b.mantissa = 0) : b.toRat = 0 := by
  rw [toRat, h, Nat.cast_zero, zero_mul, mul_zero]

theorem toRat_scale (b : Binary) (power : ℤ) : (b.scale power).toRat = b.toRat * 2 ^ power := by
  rw [toRat, toRat, scale, zpow_add₀ two_ne_zero]
  ring

theorem toRat_ofInt (n : ℤ) : (ofInt n).toRat = n := by
  rw [toRat, ofInt, zpow_zero, mul_one]
  rcases lt_or_ge n 0 with hneg | hpos
  · have hcast : ((n.natAbs : ℤ) : ℚ) = ((-n : ℤ) : ℚ) := congrArg _ (by omega)
    simp only [hneg, decide_true, if_true]
    rw [← Int.cast_natCast, hcast]
    push_cast
    ring
  · have hcast : ((n.natAbs : ℤ) : ℚ) = ((n : ℤ) : ℚ) := congrArg _ (by omega)
    simp only [not_lt.mpr hpos, decide_false, Bool.false_eq_true, if_false]
    rw [← Int.cast_natCast, hcast, one_mul]

theorem floorMagnitude_eq (b : Binary) :
    (b.floorMagnitude : ℤ) = ⌊(b.mantissa * 2 ^ b.exponent : ℚ)⌋ := by
  have hfraction : (b.mantissa * 2 ^ b.exponent : ℚ) =
      ((b.mantissa * 2 ^ b.exponent.toNat : ℕ) : ℚ) / ((2 ^ (-b.exponent).toNat : ℕ) : ℚ) := by
    rw [zpow_eq_div two_ne_zero]
    push_cast
    ring
  rw [hfraction, ← Int.natCast_floor_eq_floor (by positivity), Nat.floor_div_eq_div]
  rfl

/-- The whole part of a binary number, cut toward zero: from below if the number is not
negative, and from above if it is. -/
theorem truncate_eq (b : Binary) : b.truncate = if b.negative then ⌈b.toRat⌉ else ⌊b.toRat⌋ := by
  rw [truncate, toRat, floorMagnitude_eq]
  cases b.negative with
  | false => simp
  | true => simp [Int.ceil_neg]

/-- A whole number below is not passed, so a least value is kept. -/
theorem le_truncate {n : ℤ} (h : (n : ℚ) ≤ b.toRat) : n ≤ b.truncate := by
  rw [truncate_eq]
  split
  · exact_mod_cast h.trans (Int.le_ceil b.toRat)
  · exact Int.le_floor.mpr h

/-- Nor is one above, so a greatest value is kept as well. -/
theorem truncate_le {n : ℤ} (h : b.toRat ≤ n) : b.truncate ≤ n := by
  rw [truncate_eq]
  split
  · exact Int.ceil_le.mpr h
  · exact_mod_cast (Int.floor_le b.toRat).trans h

theorem abs_truncate_sub_lt (b : Binary) : |(b.truncate : ℚ) - b.toRat| < 1 := by
  rw [truncate_eq, abs_lt]
  split
  · have hle := Int.le_ceil b.toRat
    have hlt := Int.ceil_lt_add_one b.toRat
    constructor <;> linarith
  · have hle := Int.floor_le b.toRat
    have hlt := Int.lt_floor_add_one b.toRat
    constructor <;> linarith

/-- A whole number stays what it is, however it is written as digits and an exponent. -/
theorem truncate_intCast {n : ℤ} (h : b.toRat = n) : b.truncate = n := by
  rw [truncate_eq, h, Int.ceil_intCast, Int.floor_intCast, ite_self]

/-! ## Singles as bits -/

/-- The bits of a number of all digits, taken apart again; the first digit is put back. -/
theorem decode_of_full (negative : Bool) {field whole : ℕ} (hfield : field ≤ 253)
    (hfull : 2 ^ 23 ≤ whole) (hlt : whole < 2 ^ 24) :
    Format.single.decode ((if negative then 2 ^ 31 else 0) + (field * 2 ^ 23 + whole)) =
      some ⟨negative, whole, field - 149⟩ := by
  have hnegative : decide (2 ^ 31 ≤ (if negative then 2 ^ 31 else 0) + (field * 2 ^ 23 + whole)) =
      negative := by
    cases negative with
    | false => exact decide_eq_false (by simp; omega)
    | true => exact decide_eq_true (by simp)
  have hmagnitude : ((if negative then 2 ^ 31 else 0) + (field * 2 ^ 23 + whole)) % 2 ^ 31 =
      field * 2 ^ 23 + whole := by
    cases negative with
    | false => simp; omega
    | true => simp; omega
  have hdiv : (field * 2 ^ 23 + whole) / 2 ^ 23 = field + 1 := by omega
  have hmod : (field * 2 ^ 23 + whole) % 2 ^ 23 = whole - 2 ^ 23 := by omega
  have hsignBit : Format.single.signBit = 2 ^ 31 := rfl
  have hinfinity : Format.single.infinityBits = 255 * 2 ^ 23 := rfl
  have hleast : Format.single.leastExponent = -149 := rfl
  have hfractionBits : Nat.pow 2 Format.single.fractionBits = 2 ^ 23 := rfl
  simp only [Format.decode, hsignBit, hinfinity, hleast, hfractionBits, hnegative, hmagnitude,
    hdiv, hmod]
  rw [if_neg (by omega), if_neg (by omega), Nat.sub_add_cancel hfull, Nat.cast_add, Nat.cast_one,
    show -149 + ((field : ℤ) + 1) - 1 = field - 149 by ring]

/-- Few digits, moved up until there are all, are at least the least number of all digits and
less than the next power of two. -/
theorem full_of_few {m : ℕ} (hpos : 0 < m) (hlt : m < 2 ^ 24) :
    2 ^ 23 ≤ m * 2 ^ (23 - m.log2) ∧ m * 2 ^ (23 - m.log2) < 2 ^ 24 := by
  have hlog : m.log2 ≤ 23 := Nat.lt_succ_iff.mp ((Nat.log2_lt hpos.ne').mpr hlt)
  have hscale : 0 < 2 ^ (23 - m.log2) := Nat.two_pow_pos _
  constructor
  · calc
      2 ^ 23 = 2 ^ m.log2 * 2 ^ (23 - m.log2) := by rw [← pow_add, Nat.add_sub_cancel' hlog]
      _ ≤ m * 2 ^ (23 - m.log2) := Nat.mul_le_mul_right _ (Nat.log2_self_le hpos.ne')
  · calc
      m * 2 ^ (23 - m.log2) < 2 ^ (m.log2 + 1) * 2 ^ (23 - m.log2) :=
        Nat.mul_lt_mul_of_pos_right Nat.lt_log2_self hscale
      _ = 2 ^ 24 := by rw [← pow_add]; congr 1; omega

/-- The bits that a number of few digits gets, where nothing has to be rounded. -/
theorem encode_of_few (hpos : 0 < b.mantissa) (hlt : b.mantissa < 2 ^ 24)
    (hlow : -126 ≤ b.exponent) (hhigh : b.exponent ≤ 104) :
    Format.single.encode b = (if b.negative then 2 ^ 31 else 0) +
      ((b.exponent + b.mantissa.log2 + 126).toNat * 2 ^ 23 +
        b.mantissa * 2 ^ (23 - b.mantissa.log2)) := by
  have hlog : b.mantissa.log2 ≤ 23 := Nat.lt_succ_iff.mp ((Nat.log2_lt hpos.ne').mpr hlt)
  have hleast : Format.single.leastExponent = -149 := rfl
  have hinfinity : Format.single.infinityBits = 255 * 2 ^ 23 := rfl
  have hsignBit : Format.single.signBit = 2 ^ 31 := rfl
  have hfractionBits : Format.single.fractionBits = 23 := rfl
  have hpow : Nat.pow 2 23 = 2 ^ 23 := rfl
  have hplace : max (b.exponent + b.mantissa.log2 - (23 : ℕ)) (-149) =
      b.exponent + b.mantissa.log2 - 23 := by omega
  have hratio : ratioOfPower (b.exponent - (b.exponent + b.mantissa.log2 - 23)) =
      (2 ^ (23 - b.mantissa.log2), 1) := by
    have hup : (b.exponent - (b.exponent + b.mantissa.log2 - 23)).toNat = 23 - b.mantissa.log2 := by
      omega
    have hdown : (-(b.exponent - (b.exponent + b.mantissa.log2 - 23))).toNat = 0 := by omega
    rw [ratioOfPower, hup, hdown]
    rfl
  have hwhole (n : ℕ) : divideToEven n 1 = n := by
    simp [divideToEven, Nat.mod_one]
  have hfull := full_of_few hpos hlt
  have hfield : (b.exponent + b.mantissa.log2 - 23 - -149).toNat =
      (b.exponent + b.mantissa.log2 + 126).toNat := by omega
  simp only [Format.encode, hpos.ne', if_false, hleast, hinfinity, hsignBit, hfractionBits, hpow,
    hplace, hratio, hwhole, hfield]
  rw [min_eq_left (by omega)]

/-- Few digits come back from their bits, perhaps written with another exponent. -/
theorem exists_decode_encode (hlt : b.mantissa < 2 ^ 24) (hlow : -126 ≤ b.exponent)
    (hhigh : b.exponent ≤ 104) :
    Format.single.encode b < 2 ^ 32 ∧
      ∃ b', Format.single.decode (Format.single.encode b) = some b' ∧ b'.toRat = b.toRat := by
  rcases Nat.eq_zero_or_pos b.mantissa with hnone | hpos
  · have hencode : Format.single.encode b = if b.negative then 2 ^ 31 else 0 := if_pos hnone
    rw [hencode, toRat_of_mantissa_eq_zero hnone]
    cases b.negative with
    | false => exact ⟨by decide, _, rfl, toRat_of_mantissa_eq_zero rfl⟩
    | true => exact ⟨by decide, _, rfl, toRat_of_mantissa_eq_zero rfl⟩
  have hlog : b.mantissa.log2 ≤ 23 := Nat.lt_succ_iff.mp ((Nat.log2_lt hpos.ne').mpr hlt)
  obtain ⟨hfull, hless⟩ := full_of_few hpos hlt
  rw [encode_of_few hpos hlt hlow hhigh]
  refine ⟨by split <;> omega, _, decode_of_full b.negative (by omega) hfull hless, ?_⟩
  have hplace : ((b.exponent + b.mantissa.log2 + 126).toNat : ℤ) - 149 =
      b.exponent - (23 - b.mantissa.log2 : ℕ) := by omega
  rw [toRat, toRat, hplace, zpow_sub₀ two_ne_zero, zpow_natCast]
  push_cast
  field_simp

end Binary

/-! ## Singles -/

namespace Single

open Float.Model (UnpackedFloat)

variable {x : Float32} {b : Binary}

/-- A single comes back from its bits, as its own bits are in the one form for what is not a
number. -/
theorem ofBits_toBits (x : Float32) : Float32.ofBits x.toBits = x := by
  obtain ⟨⟨bits, hvalid⟩⟩ := x
  have hbits := Packing.pack_unpack (by decide) hvalid
  change Float32.ofModel ⟨UInt32.ofBitVec (UnpackedFloat.pack .binary32
    (UnpackedFloat.unpack .binary32 bits.toBitVec)), _⟩ = _
  congr 2
  rw [hbits]

/-- Bits of a finite number are those that have an exact value, so both ways of looking at
them agree. -/
theorem isFinite_unpack_iff_decode (bits : BitVec Float.Model.Format.binary32.numBits) :
    (UnpackedFloat.unpack .binary32 bits).isFinite = true ↔
      ∃ b, Binary.Format.single.decode bits.toNat = some b := by
  have hfield := Packing.toNat_unpackExponent bits
  have hones : Float.Model.UnpackedFloat.unpackExponent bits = -1#_ ↔
      bits.toNat / 2 ^ 23 % 2 ^ 8 = 255 := by
    rw [← BitVec.toNat_inj, hfield]
    rfl
  have hlt : bits.toNat < 2 ^ 32 := bits.isLt
  have hinfinity : Binary.Format.single.infinityBits = 255 * 2 ^ 23 := rfl
  have hsignBit : Binary.Format.single.signBit = 2 ^ 31 := rfl
  rw [Packing.isFinite_unpack_iff, ne_eq, hones]
  simp only [Binary.Format.decode, hinfinity, hsignBit]
  split
  · simp
    omega
  · refine ⟨fun _ => ?_, fun _ => by omega⟩
    split <;> exact ⟨_, rfl⟩

/-- Finite singles are those that have an exact value, zeros among them. -/
theorem isFinite_iff_ofSingle? :
    x.isFinite = true ↔ ∃ b, Binary.ofSingle? x = some b :=
  isFinite_unpack_iff_decode x.toModel.toBits.toBitVec

/-- Bits that have an exact value give it to their single, since they are not brought to
another form. -/
theorem ofSingle?_ofBits {bits : UInt32}
    (h : Binary.Format.single.decode bits.toNat = some b) :
    Binary.ofSingle? (Float32.ofBits bits) = some b := by
  have hfinite := (isFinite_unpack_iff_decode bits.toBitVec).mpr ⟨b, h⟩
  have hbits := Packing.pack_unpack (by decide) (Packing.valid_of_isFinite hfinite)
  change Binary.Format.single.decode (UnpackedFloat.pack .binary32
    (UnpackedFloat.unpack .binary32 bits.toBitVec)).toNat = _
  rw [hbits]
  exact h

/-- A number of few digits is the exact value of the nearest single, so nothing is rounded. -/
theorem exists_ofSingle?_toSingle (hlt : b.mantissa < 2 ^ 24) (hlow : -126 ≤ b.exponent)
    (hhigh : b.exponent ≤ 104) :
    ∃ b', Binary.ofSingle? b.toSingle = some b' ∧ b'.toRat = b.toRat := by
  obtain ⟨hbits, b', hdecode, hvalue⟩ := Binary.exists_decode_encode hlt hlow hhigh
  refine ⟨b', ofSingle?_ofBits ?_, hvalue⟩
  rwa [Nat.toUInt32, UInt32.toNat_ofNat_of_lt' hbits]

/-- The number that a finite single is; zero for all others. -/
def value (x : Float32) : ℚ :=
  ((Binary.ofSingle? x).map Binary.toRat).getD 0

theorem value_of_ofSingle? (h : Binary.ofSingle? x = some b) : value x = b.toRat := by
  rw [value, h]
  rfl

end Single

end Compander
