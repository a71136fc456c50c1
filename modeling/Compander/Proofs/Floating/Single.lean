import Mathlib
import Compander.Decibel

/-!
# Kinds of singles

A single is zero, finite, infinite or not a number, and what an operation does to that is
settled by the kinds of its operands. That much is enough to say when a product is a number
and what clipping makes of it:

* `Single.kind` — the number behind the bits of a single;
* `Single.le_of_not_lt` — singles that are numbers can be compared;
* `Single.isNaN_mul_iff` — a sample under a gain is not a number only if the gain is none,
  or if silence meets an infinite gain;
* `Single.inRange_clip_iff` — what is clipped lies within `[-1, 1]` if it is a number;
* `Single.clip_mul_iff` — both together.

Clipping compares with both ends, and what is not a number passes both comparisons unchanged. So
a bound on samples that come out cannot be had from clipping alone; what is needed of the gain is
said here exactly, without any bound on how large it is.
-/

namespace Compander.Single

open Float.Model (Format UnpackedFloat)
open Float.Model.UnpackedFloat

variable {x y gain : Float32}

/-! ## Kinds -/

/-- The number behind the bits of a single. -/
def kind (x : Float32) : UnpackedFloat :=
  x.toModel.unpack

theorem lt_iff : x < y ↔ (kind x).compare (kind y) = some .lt := by
  change x.lt y = true ↔ _
  rw [Float32.lt, decide_eq_true_iff]
  change ((kind x).compare (kind y) == some .lt) = true ↔ _
  exact beq_iff_eq

theorem le_iff : x ≤ y ↔ ∃ order, (kind x).compare (kind y) = some order ∧ order.isLE = true := by
  change x.le y = true ↔ _
  rw [Float32.le, decide_eq_true_iff]
  change ((kind x).compare (kind y)).any (·.isLE) = true ↔ _
  exact Option.any_eq_true ..

theorem beq_iff : (x == y) = true ↔ (kind x).compare (kind y) = some .eq := by
  change ((kind x).compare (kind y) == some .eq) = true ↔ _
  exact beq_iff_eq

theorem compare_finite_swap (m m' : Nat) (e e' : Int) :
    (compare e' e).then (compare m' m) = ((compare e e').then (compare m m')).swap := by
  rw [Ordering.swap_then, ← Std.OrientedCmp.eq_swap, ← Std.OrientedCmp.eq_swap]

/-- Compared the other way around, numbers stand the other way around, and what cannot be
compared still cannot. -/
theorem compare_swap (a b : UnpackedFloat) :
    b.compare a = (a.compare b).map Ordering.swap := by
  cases a with
  | notANumber => cases b <;> rfl
  | infinity s | zero s =>
    cases b with
    | notANumber => cases s <;> rfl
    | infinity t | zero t | finite t => cases s <;> cases t <;> rfl
  | finite s m e =>
    cases b with
    | notANumber => cases s <;> rfl
    | infinity t | zero t => cases s <;> cases t <;> rfl
    | finite t m' e' =>
      -- of one sign, the exponents and digits decide
      cases s <;> cases t <;> simp [UnpackedFloat.compare, compare_finite_swap m m' e e']

/-- Numbers can be compared, infinities included. -/
theorem compare_isSome {a b : UnpackedFloat} (ha : a.isNaN = false) (hb : b.isNaN = false) :
    (a.compare b).isSome = true := by
  cases a with
  | notANumber => cases ha
  | infinity s | zero s | finite s =>
    cases b with
    | notANumber => cases hb
    | infinity t | zero t | finite t => cases s <;> cases t <;> rfl

/-- Singles that are numbers can be compared: if one is not below the other, it is not the
lesser one. -/
theorem le_of_not_lt (hx : x.isNaN = false) (hy : y.isNaN = false) (h : ¬x < y) : y ≤ x := by
  obtain ⟨order, horder⟩ := Option.isSome_iff_exists.mp (compare_isSome hx hy)
  change (kind x).compare (kind y) = some order at horder
  rw [lt_iff, horder] at h
  rw [le_iff, compare_swap, horder]
  refine ⟨order.swap, rfl, ?_⟩
  cases order with
  | lt => exact absurd rfl h
  | eq => rfl
  | gt => rfl

/-- What can be compared is a number, on either side of the comparison. -/
theorem isNaN_of_compare {a b : UnpackedFloat} {order : Ordering}
    (h : a.compare b = some order) : a.isNaN = false ∧ b.isNaN = false := by
  cases a with
  | notANumber => cases h
  | infinity s | zero s | finite s =>
    cases b with
    | notANumber => cases s <;> cases h
    | infinity t | zero t | finite t => exact ⟨rfl, rfl⟩

theorem isNaN_of_lt (h : x < y) : x.isNaN = false ∧ y.isNaN = false :=
  isNaN_of_compare (lt_iff.mp h)

theorem isNaN_of_le (h : x ≤ y) : x.isNaN = false ∧ y.isNaN = false := by
  obtain ⟨order, horder, -⟩ := le_iff.mp h
  exact isNaN_of_compare horder

/-- A single is finite, infinite or not a number, and only one of these. -/
theorem isFinite_iff : x.isFinite = true ↔ x.isNaN = false ∧ x.isInf = false := by
  change (kind x).isFinite = true ↔ (kind x).isNaN = false ∧ (kind x).isInf = false
  cases kind x with
  | notANumber | infinity | zero | finite => simp [isFinite, isNaN, isInf]

/-- Only zeros are equal to zero, and both of them are, whatever their sign. -/
theorem beq_zero_iff : (x == 0.0) = true ↔ ∃ s, kind x = .zero s := by
  rw [beq_iff]
  change (kind x).compare (.zero .positive) = some .eq ↔ _
  cases kind x with
  | notANumber => exact ⟨nofun, nofun⟩
  | infinity s | finite s => cases s <;> exact ⟨nofun, nofun⟩
  | zero s => exact ⟨fun _ => ⟨s, rfl⟩, fun _ => rfl⟩

/-! ## Bits -/

/-- Bits that are not those of "not a number" stand for a number, an infinity perhaps. -/
theorem isNaN_unpack {spec : Format} {bits : BitVec spec.numBits}
    (h : unpackExponent bits ≠ -1#_ ∨ unpackMantissa bits = 0#_) :
    (unpack spec bits).isNaN = false := by
  simp only [unpack]
  split
  · rename_i hexponent
    rw [if_pos (h.resolve_left (not_not_intro hexponent))]
    rfl
  · split
    · split <;> rfl
    · rfl

theorem ofNat_ne_neg_one {width n : Nat} (h : n + 1 < 2 ^ width) :
    BitVec.ofNat width n ≠ -1#_ := by
  intro heq
  have htoNat := congrArg BitVec.toNat heq
  rw [BitVec.toNat_ofNat, Nat.mod_eq_of_lt (by omega), BitVec.neg_one_eq_allOnes,
    BitVec.toNat_allOnes] at htoNat
  omega

/-- The bits of a finite number stand for a number, if maybe an infinite one. -/
theorem isNaN_unpack_pack_finite (spec : Format) (s : Sign) (m : Nat) (e : Int) (h : 0 < m) :
    (unpack spec (pack spec (.finite s m e h))).isNaN = false := by
  have hwidth : 2 ^ 1 ≤ 2 ^ spec.exponentBits := Nat.pow_le_pow_right (by decide) spec.he
  apply isNaN_unpack
  simp only [pack]
  -- what is too large becomes infinite, and all else has an exponent that is not all ones
  split
  · rw [packedInfinity, unpackMantissa_packComponents]
    exact .inr rfl
  · left
    split
    · rw [unpackExponent_packComponents]
      exact ofNat_ne_neg_one (by omega)
    · rw [unpackExponent_packComponents]
      exact ofNat_ne_neg_one (by omega)

/-- The bits of a number stand for a number, and the bits of what is none for none. -/
theorem isNaN_unpack_pack (u : UnpackedFloat) :
    (unpack .binary32 (pack .binary32 u)).isNaN = u.isNaN := by
  cases u with
  | notANumber => rfl
  | infinity s | zero s => cases s <;> rfl
  | finite s m e h => exact isNaN_unpack_pack_finite .binary32 s m e h

/-! ## Products -/

theorem kind_mul (x y : Float32) :
    kind (x * y) = unpack .binary32 (pack .binary32 (mul .binary32 (kind x) (kind y))) :=
  rfl

/-- Rounding makes a number of a number: what is too large becomes an infinity. -/
theorem isNaN_roundWithAccuracy (spec : Format) (s : Sign) (m : Nat) (e : Int) (a : Accuracy) :
    (roundWithAccuracy spec s m e a).isNaN = false := by
  simp only [roundWithAccuracy]
  split <;> rfl

/-- Which products of a finite number are not a number: those with what is none, and those of
zero with an infinity. -/
theorem isNaN_mul_unpacked {a b : UnpackedFloat} (ha : a.isFinite = true) :
    (mul .binary32 a b).isNaN = true ↔
      b.isNaN = true ∨ ((∃ s, a = .zero s) ∧ b.isInf = true) := by
  cases a with
  | notANumber | infinity s => cases ha
  | zero s =>
    cases b with
    | notANumber => exact ⟨fun _ => .inl rfl, fun _ => rfl⟩
    | infinity t => exact ⟨fun _ => .inr ⟨⟨s, rfl⟩, rfl⟩, fun _ => rfl⟩
    | zero t | finite t => simp [mul, isNaN, isInf]
  | finite s m e h =>
    cases b with
    | notANumber => exact ⟨fun _ => .inl rfl, fun _ => rfl⟩
    | infinity t | zero t => simp [mul, isNaN]
    | finite t m' e' =>
      have hround := isNaN_roundWithAccuracy .binary32 (s * t) (m * m') (e + e') .exact
      change (roundWithAccuracy ..).isNaN = true ↔ _
      rw [hround]
      simp [isNaN, isInf]

/-- The product of a finite number and a gain is not a number only if the gain is none, or
if nothing is multiplied by infinity. -/
theorem isNaN_mul_iff (hx : x.isFinite = true) :
    (x * gain).isNaN = true ↔
      gain.isNaN = true ∨ ((x == 0.0) = true ∧ gain.isInf = true) := by
  rw [beq_zero_iff]
  change (kind (x * gain)).isNaN = true ↔ _
  rw [kind_mul, isNaN_unpack_pack]
  exact isNaN_mul_unpacked hx

/-- Silence under a finite gain is silence, of one sign or the other. -/
theorem mul_beq_zero (hx : (x == 0.0) = true) (hgain : gain.isFinite = true) :
    (x * gain == 0.0) = true := by
  obtain ⟨s, hs⟩ := beq_zero_iff.mp hx
  have hzero : ∃ t, mul .binary32 (kind x) (kind gain) = .zero t := by
    change (kind gain).isFinite = true at hgain
    rw [hs]
    cases hkind : kind gain with
    | notANumber | infinity t =>
      rw [hkind] at hgain
      cases hgain
    | zero t | finite t => exact ⟨s * t, rfl⟩
  obtain ⟨t, ht⟩ := hzero
  rw [beq_zero_iff, kind_mul, ht]
  cases t <;> exact ⟨_, rfl⟩

/-! ## Samples -/

/-- A sample lies within `[-1, 1]`, so it is a number. -/
def InRange (x : Float32) : Prop :=
  -1.0 ≤ x ∧ x ≤ 1.0

/-- A sample is finite, as it lies between two finite numbers. -/
theorem InRange.isFinite (h : InRange x) : x.isFinite = true := by
  obtain ⟨low, hlow, hlowLE⟩ := le_iff.mp h.1
  obtain ⟨high, hhigh, hhighLE⟩ := le_iff.mp h.2
  change (kind x).isFinite = true
  cases hkind : kind x with
  | notANumber =>
    rw [hkind] at hhigh
    cases hhigh
  | infinity s =>
    -- each infinity lies beyond one of the bounds
    rw [hkind] at hlow hhigh
    cases s with
    | negative =>
      cases hlow
      cases hlowLE
    | positive =>
      cases hhigh
      cases hhighLE
  | zero | finite => rfl

/-- What is clipped is a sample if it is a number, and it is none otherwise. -/
theorem inRange_clip_iff : InRange (Decibel.clip y) ↔ y.isNaN = false := by
  constructor
  · intro h
    rw [Decibel.clip] at h
    -- what is not a number passes both comparisons and is not in range
    split at h
    · rename_i hlow
      exact (isNaN_of_lt hlow).1
    · split at h
      · rename_i hhigh
        exact (isNaN_of_lt hhigh).2
      · exact (isNaN_of_le h.2).1
  · intro h
    rw [Decibel.clip]
    split
    · exact ⟨by decide, by decide⟩
    · rename_i hlow
      split
      · exact ⟨by decide, by decide⟩
      · rename_i hhigh
        exact ⟨le_of_not_lt h rfl hlow, le_of_not_lt rfl h hhigh⟩

/-- Clipping leaves silence alone, and the sign of the zero with it. -/
theorem clip_of_beq_zero (hy : (y == 0.0) = true) : Decibel.clip y = y := by
  obtain ⟨s, hs⟩ := beq_zero_iff.mp hy
  have hlow : ¬y < -1.0 := by
    rw [lt_iff, hs]
    exact nofun
  have hhigh : ¬1.0 < y := by
    rw [lt_iff, hs]
    exact nofun
  rw [Decibel.clip, if_neg hlow, if_neg hhigh]

/-- A gain keeps a sample a number, and silence silence. -/
structure Tame (sample gain : Float32) : Prop where
  /-- the gain is a number -/
  isNaN_eq_false : gain.isNaN = false
  /-- silence never meets an infinite gain -/
  isFinite_of_zero : (sample == 0.0) = true → gain.isFinite = true

/-- **A sample under a gain.** It stays a sample, and stays silent if it was, exactly if
the gain is tame. -/
theorem tame_iff (hx : InRange x) :
    Tame x gain ↔ InRange (Decibel.clip (x * gain)) ∧
      ((x == 0.0) = true → (Decibel.clip (x * gain) == 0.0) = true) := by
  rw [inRange_clip_iff, ← Bool.not_eq_true (x * gain).isNaN, isNaN_mul_iff hx.isFinite]
  constructor
  · intro h
    refine ⟨?_, fun hzero => ?_⟩
    · rintro (hnan | ⟨hzero, hinf⟩)
      · rw [h.isNaN_eq_false] at hnan
        cases hnan
      · rw [(isFinite_iff.mp (h.isFinite_of_zero hzero)).2] at hinf
        cases hinf
    · have hsilent := mul_beq_zero hzero (h.isFinite_of_zero hzero)
      rw [clip_of_beq_zero hsilent]
      exact hsilent
  · rintro ⟨hnumber, -⟩
    have hnan : gain.isNaN = false := by
      rw [← Bool.not_eq_true]
      exact fun hnan => hnumber (.inl hnan)
    refine ⟨hnan, fun hzero => isFinite_iff.mpr ⟨hnan, ?_⟩⟩
    rw [← Bool.not_eq_true]
    exact fun hinf => hnumber (.inr ⟨hzero, hinf⟩)

end Compander.Single
