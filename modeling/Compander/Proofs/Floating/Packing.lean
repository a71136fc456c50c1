import Mathlib

/-!
# Bits and their fields

The bits of a number of any format are a sign, an exponent field and a fraction field. Taken apart
and put together again they stay what they are:

* `Packing.packComponents_unpack` — bits are made of their fields;
* `Packing.toNat_unpackExponent` — the exponent field as a whole number;
* `Packing.isFinite_unpack_iff` — finite numbers do not have the greatest exponent;
* `Packing.pack_unpack` — valid bits are those of the number that they stand for.

The format is an argument, so that doubles and singles share these lemmas. Bits are valid unless
they stand for what is not a number in another form than the one that packing gives it; of those
there are many, and they are the only bits that do not come back.
-/

namespace Compander.Packing

open Float.Model (Format UnpackedFloat)
open Float.Model.UnpackedFloat (Sign packComponents unpackSign unpackExponent unpackMantissa
  unpackExponent_packComponents unpackMantissa_packComponents)

variable {spec : Format} {b : BitVec spec.numBits}

/-! ## Fields -/

theorem toBitVec_ofBitVec (b : BitVec 1) : (Sign.ofBitVec b).toBitVec = b := by
  revert b
  decide

theorem ofBitVec_toBitVec (s : Sign) : Sign.ofBitVec s.toBitVec = s := by
  cases s <;> rfl

theorem toNat_unpackExponent (b : BitVec spec.numBits) :
    (unpackExponent b).toNat =
      b.toNat / 2 ^ spec.mantissaBitsWithoutImplicit % 2 ^ spec.exponentBits := by
  have hbits := spec.he
  have hwidth : spec.mantissaBitsWithoutImplicit + spec.exponentBits - 1 -
      spec.mantissaBitsWithoutImplicit + 1 = spec.exponentBits := by omega
  simp only [unpackExponent, BitVec.toNat_cast, BitVec.extractLsb_toNat,
    Nat.shiftRight_eq_div_pow, hwidth]

/-- Bits put together again from their fields are the same bits, in any format. -/
theorem packComponents_unpack (b : BitVec spec.numBits) :
    packComponents spec (Sign.ofBitVec (unpackSign b)) (unpackExponent b) (unpackMantissa b) =
      b := by
  have hm := spec.hm
  have he := spec.he
  rw [packComponents, toBitVec_ofBitVec]
  ext i hi
  simp only [unpackSign, unpackExponent, unpackMantissa, BitVec.extractLsb, BitVec.getElem_append,
    BitVec.getElem_cast, BitVec.getElem_extractLsb', Nat.zero_add]
  rw [← BitVec.getLsbD_eq_getElem hi]
  split
  · rfl
  · split
    · congr 1
      omega
    · congr 1
      omega

theorem exists_fields (b : BitVec spec.numBits) :
    ∃ s field fraction, b = packComponents spec s field fraction :=
  ⟨_, _, _, (packComponents_unpack b).symm⟩

theorem unpackSign_packComponents (s : Sign) (field : BitVec spec.exponentBits)
    (fraction : BitVec spec.mantissaBitsWithoutImplicit) :
    Sign.ofBitVec (unpackSign (packComponents spec s field fraction)) = s := by
  have hsign : unpackSign (packComponents spec s field fraction) = s.toBitVec := by
    ext i hi
    obtain rfl : i = 0 := by omega
    simp [unpackSign, packComponents, BitVec.getLsbD_append, BitVec.getElem_append]
  rw [hsign, ofBitVec_toBitVec]

/-! ## Numbers -/

/-- Finite numbers are those whose exponent field is not all ones, with any fraction. -/
theorem isFinite_unpack_iff :
    (UnpackedFloat.unpack spec b).isFinite = true ↔ unpackExponent b ≠ -1#_ := by
  simp only [UnpackedFloat.unpack]
  by_cases hones : unpackExponent b = -1#_
  · rw [if_pos hones]
    refine ⟨fun h => ?_, absurd hones⟩
    split at h <;> cases h
  · rw [if_neg hones]
    refine ⟨fun _ => hones, fun _ => ?_⟩
    split
    · split <;> rfl
    · rfl

/-- Bits of a number that is finite are valid, as only what is not a number has more than one
form. -/
theorem valid_of_isFinite (h : (UnpackedFloat.unpack spec b).isFinite = true) : spec.Valid b :=
  ⟨fun hones _ => absurd hones (isFinite_unpack_iff.mp h)⟩

theorem toNat_add_one_lt {width : ℕ} {field : BitVec width} (h : field ≠ -1#_) :
    field.toNat + 1 < 2 ^ width := by
  have hlt := field.isLt
  have hne : field.toNat ≠ 2 ^ width - 1 := by
    intro heq
    apply h
    apply BitVec.eq_of_toNat_eq
    rw [BitVec.neg_one_eq_allOnes, BitVec.toNat_allOnes, heq]
  omega

/-- A fraction with the digit before it is a power of two greater. -/
theorem toNat_one_append {width : ℕ} (fraction : BitVec width) :
    (1#1 ++ fraction).toNat = 2 ^ width + fraction.toNat := by
  rw [BitVec.toNat_append, ← Nat.shiftLeft_add_eq_or_of_lt fraction.isLt, Nat.shiftLeft_eq]
  simp

theorem log2_one_append {width : ℕ} (fraction : BitVec width) :
    (1#1 ++ fraction).toNat.log2 = width := by
  have hlt := fraction.isLt
  have hpos := Nat.two_pow_pos width
  rw [toNat_one_append, Nat.log2_eq_iff (by omega), Nat.pow_succ]
  omega

/-- The bits of a number with too few digits for one before the fraction, which has the least
exponent. -/
theorem pack_of_least (hwidth : 1 < spec.exponentBits) {s : Sign}
    {fraction : BitVec spec.mantissaBitsWithoutImplicit} {e : ℤ} (h : 0 < fraction.toNat)
    (he : e + spec.exponentBias + spec.mantissaBitsWithoutImplicit = 1) :
    UnpackedFloat.pack spec (.finite s fraction.toNat e h) =
      packComponents spec s 0#_ fraction := by
  have hleast : 2 ^ 2 ≤ 2 ^ spec.exponentBits := Nat.pow_le_pow_right (by decide) hwidth
  have hlog : fraction.toNat.log2 + 1 ≠ spec.mantissaBits := by
    have := (Nat.log2_lt h.ne').mpr fraction.isLt
    rw [Format.mantissaBits]
    omega
  rw [UnpackedFloat.pack, he]
  simp only [Int.toNat_one]
  rw [if_neg (by omega), if_neg hlog, BitVec.ofNat_toNat, BitVec.setWidth_eq]

/-- The bits of a number with a digit before the fraction leave that digit out. -/
theorem pack_of_one_append {s : Sign} {field : BitVec spec.exponentBits}
    {fraction : BitVec spec.mantissaBitsWithoutImplicit} {e : ℤ} (h : 0 < (1#1 ++ fraction).toNat)
    (hones : field ≠ -1#_)
    (he : e + spec.exponentBias + spec.mantissaBitsWithoutImplicit = field.toNat) :
    UnpackedFloat.pack spec (.finite s (1#1 ++ fraction).toNat e h) =
      packComponents spec s field fraction := by
  have hless := toNat_add_one_lt hones
  have hlog : (1#1 ++ fraction).toNat.log2 + 1 = spec.mantissaBits := by
    rw [log2_one_append, Format.mantissaBits, Nat.add_comm]
  have hfraction : BitVec.ofNat _ (1#1 ++ fraction).toNat = fraction := by
    apply BitVec.eq_of_toNat_eq
    rw [toNat_one_append, BitVec.toNat_ofNat, Nat.add_mod_left, Nat.mod_eq_of_lt fraction.isLt]
  rw [UnpackedFloat.pack, he]
  simp only [Int.toNat_natCast]
  rw [if_neg (by omega), if_pos hlog, hfraction, BitVec.ofNat_toNat, BitVec.setWidth_eq]

/-- Valid bits are those of the number that they stand for, so nothing is lost in between. -/
theorem pack_unpack (hwidth : 1 < spec.exponentBits) (h : spec.Valid b) :
    UnpackedFloat.pack spec (UnpackedFloat.unpack spec b) = b := by
  have hvalid := h.eq_packedNaN
  obtain ⟨s, field, fraction, rfl⟩ := exists_fields b
  rw [unpackExponent_packComponents, unpackMantissa_packComponents] at hvalid
  simp only [UnpackedFloat.unpack, unpackExponent_packComponents, unpackMantissa_packComponents,
    unpackSign_packComponents]
  by_cases hones : field = -1#_
  · rw [if_pos hones]
    split
    · rename_i hnone
      rw [hones, hnone]
      rfl
    · rename_i hsome
      exact (hvalid hones hsome).symm
  rw [if_neg hones]
  split
  · rename_i hzero
    split
    · rename_i hnone
      rw [hzero, hnone]
      rfl
    · have hleast : (field.toNat : ℤ) = 0 := by rw [hzero]; rfl
      rw [pack_of_least hwidth _ (by omega), hzero]
  · exact pack_of_one_append _ hones (by omega)

end Compander.Packing
