import Mathlib
import Compander.Binary
import Compander.Proofs.Floating.Double
import Compander.Proofs.Floating.Packing

/-!
# The bits of doubles

A double is a sign, an exponent field and a fraction field, and each number that a double can
be has one such form. So bits and numbers go back and forth without loss:

* `Double.Canonical` — the digits and the exponent of a finite double other than zero;
* `Double.unpack_pack` — from such a number to bits and back;
* `Double.ofModel_pack_kind` — a double is known by its number;
* `Double.ofDouble?_eq` — the exact value that is read from the bits is that number.

A number of all fifty-three digits has its first digit left out of the fraction field, and one of
fewer digits has the least exponent and leaves nothing out. The cases of every proof are these two,
besides zero and the greatest exponent, which stands for infinity and for what is not a number.
-/

namespace Compander.Double

open Float.Model (Format)
open Float.Model.UnpackedFloat (Sign packComponents unpackSign unpackExponent unpackMantissa
  unpackExponent_packComponents unpackMantissa_packComponents)
open Float.Model (UnpackedFloat)
open Packing (exists_fields pack_unpack toNat_one_append unpackSign_packComponents)

/-- The digits and the exponent of a finite double other than zero. -/
structure Canonical (m : ℕ) (e : ℤ) : Prop where
  /-- there are digits -/
  pos : 0 < m
  /-- there are not too many digits -/
  lt : m < 2 ^ 53
  /-- the last place is not too low -/
  least : -1074 ≤ e
  /-- the last place is not too high -/
  greatest : e ≤ 971
  /-- there are as few places as the digits allow -/
  normal : 2 ^ 52 ≤ m ∨ e = -1074

/-! ## Bits taken apart -/

theorem toNat_packComponents (s : Sign) (e : BitVec 11) (m : BitVec 52) :
    (packComponents .binary64 s e m).toNat =
      s.toBitVec.toNat * 2 ^ 63 + e.toNat * 2 ^ 52 + m.toNat := by
  have hm := m.isLt
  have he := e.isLt
  rw [packComponents, BitVec.toNat_append, ← Nat.shiftLeft_add_eq_or_of_lt hm,
    BitVec.toNat_append, ← Nat.shiftLeft_add_eq_or_of_lt he, Nat.shiftLeft_eq, Nat.shiftLeft_eq]
  omega

theorem toNat_pos {width : ℕ} {b : BitVec width} (h : b ≠ BitVec.ofNat width 0) : 0 < b.toNat :=
  Nat.pos_of_ne_zero fun hzero => h (BitVec.eq_of_toNat_eq (by rw [hzero, BitVec.toNat_ofNat,
    Nat.zero_mod]))

/-! ## Finite numbers -/

theorem log2_of_full {m : ℕ} (hm : m < 2 ^ 53) (hfull : 2 ^ 52 ≤ m) : m.log2 = 52 :=
  (Nat.log2_eq_iff (by omega)).mpr ⟨hfull, hm⟩

/-- The bits of a number of all digits leave the first digit out, since it is always one. -/
theorem pack_of_full {s : Sign} {m : ℕ} {e : ℤ} (h : 0 < m) (hm : Canonical m e)
    (hfull : 2 ^ 52 ≤ m) :
    UnpackedFloat.pack .binary64 (.finite s m e h) =
      packComponents .binary64 s (BitVec.ofNat 11 (e + 1075).toNat) (BitVec.ofNat 52 m) := by
  have hleast := hm.least
  have hgreatest := hm.greatest
  simp only [UnpackedFloat.pack, log2_of_full hm.lt hfull, Format.exponentBias, Format.mantissaBits]
  norm_num
  rw [if_neg (by omega), add_assoc]
  norm_num

/-- The bits of a number of fewer digits have an exponent field of zero and leave no digit
out. -/
theorem pack_of_lt {s : Sign} {m : ℕ} (h : 0 < m) (hm : m < 2 ^ 52) :
    UnpackedFloat.pack .binary64 (.finite s m (-1074) h) =
      packComponents .binary64 s 0#11 (BitVec.ofNat 52 m) := by
  have hlog : m.log2 < 52 := (Nat.log2_lt h.ne').mpr hm
  simp only [UnpackedFloat.pack, Format.exponentBias, Format.mantissaBits]
  norm_num
  omega

theorem finite_congr {s : Sign} {m m' : ℕ} {e e' : ℤ} {h : 0 < m} {h' : 0 < m'} (hm : m = m')
    (he : e = e') : UnpackedFloat.finite s m e h = .finite s m' e' h' := by
  subst hm he
  rfl

/-- Bits of an exponent that is neither the least nor the greatest stand for a number of all
digits. -/
theorem unpack_packComponents {s : Sign} {field : BitVec 11} (fraction : BitVec 52)
    (hones : field ≠ -1#11) (hzero : field ≠ 0#11) :
    UnpackedFloat.unpack .binary64 (packComponents .binary64 s field fraction) =
      .finite s (2 ^ 52 + fraction.toNat) (field.toNat - 1075) (by omega) := by
  simp only [UnpackedFloat.unpack, unpackSign_packComponents, unpackExponent_packComponents,
    unpackMantissa_packComponents, if_neg hones, if_neg hzero]
  exact finite_congr (toNat_one_append fraction) rfl

/-- Bits of the greatest exponent stand for infinity or, with any fraction, for what is not a
number. -/
theorem unpack_packComponents_ones {s : Sign} {field : BitVec 11} {fraction : BitVec 52}
    (hones : field = -1#11) :
    UnpackedFloat.unpack .binary64 (packComponents .binary64 s field fraction) =
      if fraction = 0#52 then .infinity s else .notANumber := by
  simp only [UnpackedFloat.unpack, unpackSign_packComponents, unpackExponent_packComponents,
    unpackMantissa_packComponents, if_pos hones]

/-- Bits of zero: no exponent, no fraction, and still a sign. -/
theorem unpack_packComponents_none {s : Sign} :
    UnpackedFloat.unpack .binary64 (packComponents .binary64 s 0#11 0#52) = .zero s := by
  cases s <;> rfl

/-- Bits of the least exponent stand for a number of fewer digits than there might be. -/
theorem unpack_packComponents_zero {s : Sign} {fraction : BitVec 52} (h : 0 < fraction.toNat) :
    UnpackedFloat.unpack .binary64 (packComponents .binary64 s 0#11 fraction) =
      .finite s fraction.toNat (-1074) h := by
  have hne : fraction ≠ 0#52 := by
    rintro rfl
    exact absurd h (by decide)
  have hones : (0#11 : BitVec 11) ≠ -1#11 := by decide
  simp only [UnpackedFloat.unpack, unpackSign_packComponents, unpackExponent_packComponents,
    unpackMantissa_packComponents, if_neg hones, dif_neg hne, if_true]
  exact finite_congr rfl (by decide)

/-- A number of a double comes back from its bits, digits and exponent and all. -/
theorem unpack_pack {s : Sign} {m : ℕ} {e : ℤ} (h : 0 < m) (hm : Canonical m e) :
    UnpackedFloat.unpack .binary64 (UnpackedFloat.pack .binary64 (.finite s m e h)) =
      .finite s m e h := by
  have hlt := hm.lt
  have hleast := hm.least
  have hgreatest := hm.greatest
  by_cases hfull : 2 ^ 52 ≤ m
  · have hfield : (BitVec.ofNat 11 (e + 1075).toNat).toNat = (e + 1075).toNat :=
      Nat.mod_eq_of_lt (by omega)
    have hfraction : (BitVec.ofNat 52 m).toNat = m - 2 ^ 52 := by
      change m % 2 ^ 52 = _
      omega
    rw [pack_of_full h hm hfull, unpack_packComponents]
    · exact finite_congr (by rw [hfraction]; omega) (by rw [hfield]; omega)
    · intro hones
      rw [hones] at hfield
      change 2047 = _ at hfield
      omega
    · intro hzero
      rw [hzero] at hfield
      change 0 = _ at hfield
      omega
  · obtain rfl : e = -1074 := hm.normal.resolve_left hfull
    have hfraction : (BitVec.ofNat 52 m).toNat = m := Nat.mod_eq_of_lt (by omega)
    rw [pack_of_lt h (by omega), unpack_packComponents_zero (by rw [hfraction]; exact h)]
    exact finite_congr hfraction rfl

/-- The digits and the exponent behind some bits have the one form that numbers of doubles
have. -/
theorem canonical_of_unpack {b : BitVec Format.binary64.numBits} {s : Sign} {m : ℕ} {e : ℤ}
    {h : 0 < m} (hunpack : UnpackedFloat.unpack .binary64 b = .finite s m e h) : Canonical m e := by
  obtain ⟨s, field, fraction, rfl⟩ := exists_fields b
  have hfield : field.toNat < 2 ^ 11 := field.isLt
  have hfraction : fraction.toNat < 2 ^ 52 := fraction.isLt
  by_cases hones : field = -1#11
  · rw [unpack_packComponents_ones hones] at hunpack
    split at hunpack <;> cases hunpack
  · by_cases hzero : field = 0#11
    · subst hzero
      by_cases hnone : fraction = 0#52
      · rw [hnone, unpack_packComponents_none] at hunpack
        cases hunpack
      · rw [unpack_packComponents_zero (toNat_pos hnone)] at hunpack
        cases hunpack
        exact ⟨h, by omega, by decide, by decide, .inr rfl⟩
    · have hlow : field.toNat ≠ 0 := fun h => hzero (BitVec.eq_of_toNat_eq h)
      have hhigh : field.toNat ≠ 2047 := fun h => hones (BitVec.eq_of_toNat_eq h)
      rw [unpack_packComponents fraction hones hzero] at hunpack
      cases hunpack
      exact ⟨h, by omega, by omega, by omega, .inl (by omega)⟩

/-! ## Doubles -/

variable {x y : Float}

/-- A double is known by its number, as bits of what is not a number are brought to one
form. -/
theorem ofModel_pack_kind (x : Float) : Float.ofModel (.pack (kind x)) = x := by
  obtain ⟨⟨bits, hvalid⟩⟩ := x
  have hbits := pack_unpack (by decide) hvalid
  change Float.ofModel ⟨UInt64.ofBitVec (UnpackedFloat.pack .binary64
    (UnpackedFloat.unpack .binary64 bits.toBitVec)), _⟩ = _
  congr 2
  rw [hbits]

/-- The number of a double with some digits has these digits, given that they are in the one
form. -/
theorem kind_ofModel_pack {s : Sign} {m : ℕ} {e : ℤ} (h : 0 < m) (hm : Canonical m e) :
    kind (.ofModel (.pack (.finite s m e h))) = .finite s m e h :=
  unpack_pack h hm

theorem canonical_of_kind {s : Sign} {m : ℕ} {e : ℤ} {h : 0 < m} (hx : kind x = .finite s m e h) :
    Canonical m e :=
  canonical_of_unpack hx

/-- The exact value of a finite number. -/
def value? : UnpackedFloat → Option Binary
  | .finite s m e _ => some ⟨s == .negative, m, e⟩
  | .zero s => some ⟨s == .negative, 0, -1074⟩
  | .infinity _ | .notANumber => none

/-- The exact value of some bits, by their fields: none for the greatest exponent, and
otherwise with the first digit or without it. -/
theorem decode_fields (s : Sign) {field fraction : ℕ} (hfield : field < 2 ^ 11)
    (hfraction : fraction < 2 ^ 52) :
    Binary.Format.double.decode (s.toBitVec.toNat * 2 ^ 63 + field * 2 ^ 52 + fraction) =
      if field = 2047 then none
      else if field = 0 then some ⟨s == .negative, fraction, -1074⟩
      else some ⟨s == .negative, 2 ^ 52 + fraction, field - 1075⟩ := by
  have hsign : decide (2 ^ 63 ≤ s.toBitVec.toNat * 2 ^ 63 + field * 2 ^ 52 + fraction) =
      (s == .negative) := by
    cases s with
    | negative =>
      have hbit : Sign.negative.toBitVec.toNat = 1 := rfl
      exact decide_eq_true (by omega)
    | positive =>
      have hbit : Sign.positive.toBitVec.toNat = 0 := rfl
      exact decide_eq_false (by omega)
  have hmagnitude : (s.toBitVec.toNat * 2 ^ 63 + field * 2 ^ 52 + fraction) % 2 ^ 63 =
      field * 2 ^ 52 + fraction := by
    rw [add_assoc, Nat.mul_add_mod', Nat.mod_eq_of_lt (by omega)]
  have hdiv : (field * 2 ^ 52 + fraction) / 2 ^ 52 = field := by
    rw [Nat.mul_comm, Nat.mul_add_div (by norm_num), Nat.div_eq_of_lt hfraction, Nat.add_zero]
  have hmod : (field * 2 ^ 52 + fraction) % 2 ^ 52 = fraction := by
    rw [Nat.mul_add_mod', Nat.mod_eq_of_lt hfraction]
  have hsignBit : Binary.Format.double.signBit = 2 ^ 63 := rfl
  have hinfinity : Binary.Format.double.infinityBits = 2047 * 2 ^ 52 := rfl
  have hleast : Binary.Format.double.leastExponent = -1074 := rfl
  have hfractionBits : Nat.pow 2 Binary.Format.double.fractionBits = 2 ^ 52 := rfl
  simp only [Binary.Format.decode, hsignBit, hinfinity, hleast, hfractionBits, hsign, hmagnitude,
    hdiv, hmod]
  by_cases hones : field = 2047
  · rw [if_pos hones, if_pos (by omega)]
  · rw [if_neg hones, if_neg (by omega)]
    by_cases hzero : field = 0
    · rw [if_pos hzero, if_pos hzero]
    · rw [if_neg hzero, if_neg hzero, Nat.add_comm fraction]
      congr 2
      omega

/-- The exact value of a double is that of its number, so decoding the bits by hand and
unpacking them agree. -/
theorem ofDouble?_eq (x : Float) : Binary.ofDouble? x = value? (kind x) := by
  change Binary.Format.double.decode x.toModel.toBits.toBitVec.toNat =
    value? (UnpackedFloat.unpack .binary64 x.toModel.toBits.toBitVec)
  obtain ⟨s, field, fraction, hfields⟩ :
      ∃ s field fraction, x.toModel.toBits.toBitVec = packComponents .binary64 s field fraction :=
    exists_fields _
  rw [hfields, toNat_packComponents, decode_fields s field.isLt fraction.isLt]
  by_cases hones : field = -1#11
  · subst hones
    rw [unpack_packComponents_ones rfl, if_pos (by rfl)]
    split <;> rfl
  · have hones' : field.toNat ≠ 2047 := fun h => hones (BitVec.eq_of_toNat_eq h)
    rw [if_neg hones']
    by_cases hzero : field = 0#11
    · subst hzero
      rw [if_pos (by rfl)]
      by_cases hnone : fraction = 0#52
      · rw [hnone, unpack_packComponents_none]
        rfl
      · rw [unpack_packComponents_zero (toNat_pos hnone)]
        rfl
    · have hzero' : field.toNat ≠ 0 := fun h => hzero (BitVec.eq_of_toNat_eq h)
      rw [if_neg hzero', unpack_packComponents fraction hones hzero]
      rfl

end Compander.Double
