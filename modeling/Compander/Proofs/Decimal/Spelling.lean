import Mathlib
import Compander.Decimal.Spelling
import Compander.Proofs.Decimal.Reader
import Compander.Proofs.Decimal.Shortest
import Compander.Proofs.Text.Pieces

/-!
# Numbers as text

A double is written with the shortest digits that read back, and without an exponent these are
digits around a point. So the text is read as the double again:

* `Decimal.Inside.roundsTo` — the interval of a double holds numbers that round to it;
* `Decimal.readsAs_shortest` — the number that the digits make is read as the double, however it
  is written with digits and an exponent;
* `Decimal.Places`, `Decimal.Spelling.exists_ofDouble` — digits around a point, and that
  a double is written so;
* `Decimal.read?_plain` — what is written for a finite double is read as the double.

How the digits are laid out depends on where the point falls: behind them, among them or in
front of them. Each layout is one lemma, and `Decimal.Places` is what the reader needs of any
of them, so texts of other kinds that lay numbers out in the same way can be read back by it too.
-/

namespace Compander.Decimal

open Double
open Float.Model.UnpackedFloat (Sign)
open Float.Model (UnpackedFloat)

/-! ## The interval of a double -/

section Interval

variable {negative : Bool} {m : ℕ} {e : ℤ}

/-- The upper end of the interval is half a place above, for every double. -/
theorem high_interval : ((interval .double ⟨negative, m, e⟩).2.1 : ℚ) / 4 = m + 1 / 2 := by
  simp only [interval]
  push_cast
  ring

/-- The lower end is at most half a place below; below a power of two it is nearer. -/
theorem le_low_interval (negative : Bool) (e : ℤ) (hm : 0 < m) :
    (m : ℚ) - 1 / 2 ≤ (interval .double ⟨negative, m, e⟩).1 / 4 := by
  have hle : 4 * m ≤ (interval .double ⟨negative, m, e⟩).1 + 2 := by
    simp only [interval]
    split <;> omega
  have hcast : (4 * m : ℚ) ≤ (interval .double ⟨negative, m, e⟩).1 + 2 := by exact_mod_cast hle
  linarith

/-- Below a power of two it is a quarter of a place below. -/
theorem low_interval_of_dense (negative : Bool) (hpower : m = 2 ^ 52) (he : -1074 < e) :
    ((interval .double ⟨negative, m, e⟩).1 : ℚ) / 4 = m - 1 / 4 := by
  have hlow : (interval .double ⟨negative, m, e⟩).1 = 4 * m - 1 := by
    simp only [interval]
    rw [if_pos ⟨hpower, he⟩]
  rw [hlow, Nat.cast_sub (by omega)]
  push_cast
  ring

/-- Numbers of the interval in places of the double, where the ends belong to those with even
digits. -/
theorem Inside.scaled {w : ℚ} (h : Inside .double ⟨negative, m, e⟩ (w * 2 ^ e)) :
    if m % 2 = 0 then
      ((interval .double ⟨negative, m, e⟩).1 : ℚ) / 4 ≤ w ∧ w ≤ m + 1 / 2
    else ((interval .double ⟨negative, m, e⟩).1 : ℚ) / 4 < w ∧ w < m + 1 / 2 := by
  have hpos : (0 : ℚ) < 2 ^ e := zpow_pos two_pos e
  have hscale (a : ℕ) : (a : ℚ) * 2 ^ (e - 2) = a / 4 * 2 ^ e := by
    rw [zpow_sub₀ two_ne_zero]
    ring
  have hclosed : (interval .double ⟨negative, m, e⟩).2.2 = decide (m % 2 = 0) := rfl
  rw [Inside] at h
  simpa only [hclosed, hscale, decide_eq_true_eq, mul_le_mul_iff_left₀ hpos,
    mul_lt_mul_iff_left₀ hpos, high_interval] using h

/-- What lies in the interval of a double rounds to it, be it above, below or the double
itself. -/
theorem Inside.roundsTo {q : ℚ} (h : Inside .double ⟨negative, m, e⟩ q) (hm : 0 < m) :
    RoundsTo m e q := by
  have hpos : (0 : ℚ) < 2 ^ e := zpow_pos two_pos e
  obtain ⟨w, rfl⟩ : ∃ w, q = w * 2 ^ e := ⟨q / 2 ^ e, (div_mul_cancel₀ q hpos.ne').symm⟩
  have hdiv : w * 2 ^ e / 2 ^ e = w := mul_div_cancel_right₀ w hpos.ne'
  have hlow := le_low_interval negative e hm
  have hscaled := h.scaled
  split at hscaled
  · rename_i heven
    refine ⟨?_, fun hpower he => ?_⟩
    · rw [hdiv]
      exact ⟨hlow.trans hscaled.1, hscaled.2, fun _ => heven⟩
    · rw [hdiv, ← low_interval_of_dense negative hpower he]
      exact hscaled.1
  · refine ⟨?_, fun hpower he => ?_⟩
    · rw [hdiv]
      refine ⟨(hlow.trans_lt hscaled.1).le, hscaled.2.le, ?_⟩
      rintro (htie | htie) <;> linarith
    · rw [hdiv, ← low_interval_of_dense negative hpower he]
      exact hscaled.1.le

end Interval

/-! ## Numbers read back -/

theorem eq_ofDigits {x : Float} {s : Sign} {m : ℕ} {e : ℤ} {h : 0 < m}
    (hx : kind x = .finite s m e h) : x = ofDigits s m e h := by
  rw [← ofModel_pack_kind x, hx]
  rfl

theorem neg_ofDigits {m : ℕ} {e : ℤ} (hm : Canonical m e) :
    -ofDigits .positive m e hm.pos = ofDigits .negative m e hm.pos := by
  change Float.ofModel (.pack (UnpackedFloat.neg (kind (ofDigits .positive m e hm.pos)))) = _
  rw [ofDigits, kind_ofModel_pack hm.pos hm]
  rfl

theorem neg_zero : -(0.0 : Float) = .ofModel (.pack (.zero .negative)) := by
  change Float.ofModel (.pack (UnpackedFloat.neg (kind 0.0))) = _
  have hkind : kind 0.0 = .zero .positive := rfl
  rw [hkind]
  rfl

/-- However a number is written with digits and an exponent, it is read as a double. -/
def ReadsAs (v : ℚ) (negative : Bool) (x : Float) : Prop :=
  ∀ (digits : ℕ) (exponent : ℤ), (digits : ℚ) * 10 ^ exponent = v →
    (if negative then -nearestDouble digits exponent else nearestDouble digits exponent) = x

/-- **Reading back.** The shortest decimal of a finite double is read as the double. -/
theorem readsAs_shortest (tie : Tie) {x : Float} (hx : x.isFinite = true) :
    ∃ b, Binary.ofDouble? x = some b ∧
      ((shortest .double tie b).digits = 0 → (shortest .double tie b).exponent = 0) ∧
        ReadsAs (shortest .double tie b).value b.negative x := by
  rw [ofDouble?_eq]
  cases hkind : kind x with
  | notANumber | infinity =>
    change (kind x).isFinite = true at hx
    rw [hkind] at hx
    cases hx
  | zero s =>
    have hzero : shortest .double tie ⟨s == .negative, 0, -1074⟩ = ⟨0, 0⟩ := rfl
    refine ⟨_, rfl, fun _ => congrArg exponent hzero, ?_⟩
    intro digits exponent hvalue
    rw [hzero, value, Nat.cast_zero, zero_mul] at hvalue
    have hdigits : digits = 0 := by
      have := (mul_eq_zero.mp hvalue).resolve_right (zpow_ne_zero _ (by norm_num))
      exact_mod_cast this
    rw [hdigits, ← ofModel_pack_kind x, hkind]
    cases s with
    | positive => rfl
    | negative => exact neg_zero
  | finite s m e h =>
    have hm := canonical_of_kind hkind
    obtain ⟨hdigits, hinside⟩ : _ ∧ Inside .double ⟨s == .negative, m, e⟩
      (shortest .double tie ⟨s == .negative, m, e⟩).value := inside_shortest hm.pos hm.lt hm.least
    refine ⟨_, rfl, fun hzero => absurd hzero hdigits, ?_⟩
    intro digits exponent hvalue
    have hrounds := hinside.roundsTo hm.pos
    rw [← hvalue] at hrounds
    rw [nearestDouble_eq hm hrounds, eq_ofDigits hkind]
    cases s with
    | negative => exact neg_ofDigits hm
    | positive => rfl

/-! ## Digits around a point -/

/-- The digits before the point and after it make a number, and there is one before the
point. -/
structure Places (whole fraction : List Char) (v : ℚ) : Prop where
  /-- there is a digit before the point -/
  whole_ne_nil : whole ≠ []
  /-- these are digits -/
  whole_isDigit : ∀ c ∈ whole, c.isDigit = true
  /-- and so are those after the point -/
  fraction_isDigit : ∀ c ∈ fraction, c.isDigit = true
  /-- no needless zero stands in front -/
  eq_nil_of_zero : ∀ rest, whole = '0' :: rest → rest = []
  /-- the number that they make -/
  value_eq : (valueOfDigits (whole ++ fraction) : ℚ) * 10 ^ (-(fraction.length : ℤ)) = v

theorem valueOfDigits_eq (digits : List Char) :
    valueOfDigits digits = Nat.ofDigitChars 10 digits 0 :=
  Nat.ofDigitChars_eq_foldl.symm

theorem valueOfDigits_append (left right : List Char) :
    valueOfDigits (left ++ right) =
      10 ^ right.length * valueOfDigits left + valueOfDigits right := by
  rw [valueOfDigits_eq, Nat.ofDigitChars_append, Nat.ofDigitChars_eq_ofDigitChars_zero,
    valueOfDigits_eq, valueOfDigits_eq]

theorem valueOfDigits_zeros (count : ℕ) : valueOfDigits (List.replicate count '0') = 0 := by
  rw [valueOfDigits_eq, Nat.ofDigitChars_replicate_zero, Nat.mul_zero]

theorem valueOfDigits_digitText (n : ℕ) : valueOfDigits (digitText n) = n := by
  rw [valueOfDigits_eq, digitText, Nat.ofDigitChars_ten_toDigits]

theorem digitText_ne_nil (n : ℕ) : digitText n ≠ [] :=
  Nat.toDigits_ne_nil

theorem isDigit_of_mem_digitText {n : ℕ} {c : Char} (h : c ∈ digitText n) : c.isDigit = true :=
  Nat.isDigit_of_mem_toDigits (by decide) (by decide) h

theorem isDigit_of_mem_zeros {count : ℕ} {c : Char} (h : c ∈ List.replicate count '0') :
    c.isDigit = true := by
  rw [List.eq_of_mem_replicate h]
  rfl

/-- No number but zero has a zero in front, so digits never begin with a needless one. -/
theorem eq_zero_of_digitText {n : ℕ} {rest : List Char} (h : digitText n = '0' :: rest) :
    n = 0 ∧ rest = [] := by
  induction n using Nat.strong_induction_on generalizing rest with
  | _ n ih =>
    rw [digitText] at h
    rcases Nat.lt_or_ge n 10 with hlt | hge
    · rw [Nat.toDigits_of_lt_base hlt, List.cons.injEq] at h
      exact ⟨Nat.digitChar_eq_zero.mp h.1, h.2.symm⟩
    · rw [Nat.toDigits_of_base_le (by decide) hge] at h
      obtain ⟨first, others, hfirst⟩ : ∃ first others, Nat.toDigits 10 (n / 10) = first :: others :=
        List.exists_cons_of_ne_nil (digitText_ne_nil (n / 10))
      rw [hfirst, List.cons_append, List.cons.injEq] at h
      rw [h.1] at hfirst
      have hzero := (ih (n / 10) (by omega) hfirst).1
      omega

namespace Places

variable {whole fraction : List Char} {v : ℚ}

/-- A zero at the end of the fraction changes nothing about the number that the digits
make. -/
theorem append_zero (h : Places whole fraction v) : Places whole (fraction ++ ['0']) v where
  whole_ne_nil := h.whole_ne_nil
  whole_isDigit := h.whole_isDigit
  fraction_isDigit := by
    intro c hc
    rcases List.mem_append.mp hc with hc | hc
    · exact h.fraction_isDigit c hc
    · exact isDigit_of_mem_zeros (List.mem_replicate.mpr ⟨one_ne_zero, List.mem_singleton.mp hc⟩)
  eq_nil_of_zero := h.eq_nil_of_zero
  value_eq := by
    rw [← h.value_eq, ← List.append_assoc, valueOfDigits_append, List.length_append]
    have hzero : valueOfDigits ['0'] = 0 := rfl
    have hlength : -((fraction.length + ['0'].length : ℕ) : ℤ) = -(fraction.length : ℤ) - 1 := by
      rw [Nat.cast_add, neg_add]
      rfl
    rw [hzero, hlength, zpow_sub_one₀ (by norm_num), List.length_singleton, pow_one]
    push_cast
    ring

/-- A whole number, with zeros for its power of ten, has nothing after the point. -/
theorem of_whole {n k : ℕ} (h : n = 0 → k = 0) :
    Places (digitText n ++ List.replicate k '0') [] (n * 10 ^ (k : ℤ)) where
  whole_ne_nil := List.append_ne_nil_of_left_ne_nil (digitText_ne_nil n) _
  whole_isDigit := by
    intro c hc
    rcases List.mem_append.mp hc with hc | hc
    · exact isDigit_of_mem_digitText hc
    · exact isDigit_of_mem_zeros hc
  fraction_isDigit := fun c hc => absurd hc List.not_mem_nil
  eq_nil_of_zero := by
    intro rest hrest
    obtain ⟨first, others, hfirst⟩ : ∃ first others, digitText n = first :: others :=
      List.exists_cons_of_ne_nil (digitText_ne_nil n)
    rw [hfirst, List.cons_append, List.cons.injEq] at hrest
    rw [hrest.1] at hfirst
    obtain ⟨hzero, hothers⟩ := eq_zero_of_digitText hfirst
    rw [← hrest.2, hothers, h hzero, List.replicate_zero, List.append_nil]
  value_eq := by
    rw [List.append_nil, valueOfDigits_append, valueOfDigits_digitText, valueOfDigits_zeros,
      List.length_replicate, List.length_nil, zpow_natCast]
    push_cast
    simp
    ring

/-- A number with the point among its digits, where it cuts them in two. -/
theorem of_cut {n point : ℕ} (hn : n ≠ 0) (hpoint : 0 < point) :
    Places ((digitText n).take point) ((digitText n).drop point)
      (n * 10 ^ (-(((digitText n).drop point).length : ℤ))) where
  whole_ne_nil := by
    rw [ne_eq, List.take_eq_nil_iff, not_or]
    exact ⟨hpoint.ne', digitText_ne_nil n⟩
  whole_isDigit := fun c hc => isDigit_of_mem_digitText (List.mem_of_mem_take hc)
  fraction_isDigit := fun c hc => isDigit_of_mem_digitText (List.mem_of_mem_drop hc)
  eq_nil_of_zero := by
    intro rest hrest
    have hwhole := List.take_append_drop point (digitText n)
    rw [hrest, List.cons_append] at hwhole
    exact absurd (eq_zero_of_digitText hwhole.symm).1 hn
  value_eq := by rw [List.take_append_drop, valueOfDigits_digitText]

/-- A number with the point in front of its digits, and zeros between. -/
theorem of_fraction (n k : ℕ) :
    Places ['0'] (List.replicate k '0' ++ digitText n)
      (n * 10 ^ (-((List.replicate k '0' ++ digitText n).length : ℤ))) where
  whole_ne_nil := List.cons_ne_nil _ _
  whole_isDigit := by
    intro c hc
    rw [List.mem_singleton.mp hc]
    rfl
  fraction_isDigit := by
    intro c hc
    rcases List.mem_append.mp hc with hc | hc
    · exact isDigit_of_mem_zeros hc
    · exact isDigit_of_mem_digitText hc
  eq_nil_of_zero := fun rest hrest => (List.cons.inj hrest).2.symm
  value_eq := by
    have hzero : valueOfDigits ['0'] = 0 := rfl
    rw [valueOfDigits_append, valueOfDigits_append, valueOfDigits_digitText, hzero,
      valueOfDigits_zeros, Nat.mul_zero, Nat.mul_zero, Nat.zero_add, Nat.zero_add]

end Places

/-- The digits of a decimal that is written without an exponent, wherever its point falls. -/
theorem Spelling.exists_places (s : Spelling) {d : Decimal} (hd : d.digits = 0 → d.exponent = 0) :
    ∃ whole fraction, Places whole fraction d.value ∧
      s.positionalText (digitText d.digits) d.exponent =
        whole ++ if fraction = [] then s.wholeMark.toList else '.' :: fraction := by
  obtain ⟨n, exponent⟩ := d
  change n = 0 → exponent = 0 at hd
  change ∃ whole fraction, Places whole fraction (n * 10 ^ exponent) ∧ _
  simp only [positionalText]
  split
  · rename_i hexponent
    obtain ⟨k, rfl⟩ := Int.eq_ofNat_of_zero_le hexponent
    exact ⟨_, [], .of_whole fun hn => by exact_mod_cast hd hn,
      by rw [Int.toNat_natCast, if_pos rfl]⟩
  · rename_i hexponent
    have hn : n ≠ 0 := fun h => hexponent (hd h).ge
    set length := (digitText n).length with hlength
    split
    · have hdrop : ((digitText n).drop (length + exponent).toNat).length = (-exponent).toNat := by
        rw [List.length_drop]
        omega
      have hpoint : 0 < (length + exponent).toNat := by omega
      have hplaces := Places.of_cut hn hpoint
      rw [hdrop, show -((-exponent).toNat : ℤ) = exponent by omega] at hplaces
      refine ⟨_, _, hplaces, ?_⟩
      rw [if_neg]
      intro hnil
      rw [hnil, List.length_nil] at hdrop
      omega
    · have hplaces := Places.of_fraction n (-(length + exponent)).toNat
      rw [List.length_append, List.length_replicate,
        show -(((-(length + exponent)).toNat + (digitText n).length : ℕ) : ℤ) = exponent by omega]
        at hplaces
      refine ⟨_, _, hplaces, ?_⟩
      rw [if_neg (List.append_ne_nil_of_right_ne_nil _ (digitText_ne_nil n))]
      rfl

/-- The text of a finite double that is written without an exponent: a sign, and digits that
make a number which is read as the double. -/
theorem Spelling.exists_ofDouble (s : Spelling) (hs : s.positional = none) {x : Float}
    (hx : x.isFinite = true) :
    ∃ negative v whole fraction, ReadsAs v negative x ∧ Places whole fraction v ∧
      (s.ofDouble x).toList = (if negative then ['-'] else []) ++
        (whole ++ if fraction = [] then s.wholeMark.toList else '.' :: fraction) := by
  obtain ⟨b, hb, hzero, hreads⟩ := readsAs_shortest s.tie hx
  obtain ⟨whole, fraction, hplaces, htext⟩ := s.exists_places hzero
  refine ⟨b.negative, _, whole, fraction, hreads, hplaces, ?_⟩
  simp only [ofDouble, hb, String.toList_ofList, finiteText, decimalText, hs, htext]

/-! ## Reading the plain spelling -/

/-- No digit is a letter of the words for what is not finite, so digits are read as digits. -/
theorem toLower_of_isDigit {c : Char} (h : c.isDigit = true) :
    c.toLower ≠ 'i' ∧ c.toLower ≠ 'n' := by
  have hlower : c.toLower = c := by
    rw [Char.isDigit, Bool.and_eq_true, decide_eq_true_eq, decide_eq_true_eq] at h
    have hupper : ¬(c.val ≥ 'A'.val ∧ c.val ≤ 'Z'.val) := by
      intro h'
      exact absurd (UInt32.le_trans h'.1 h.2) (by decide)
    rw [Char.toLower, dif_neg hupper]
  rw [hlower]
  constructor
  · rintro rfl
    cases h
  · rintro rfl
    cases h

namespace Places

variable {whole fraction : List Char} {v : ℚ}

/-- Digits with a point among them are read as the number that they make. -/
theorem magnitude?_eq (h : Places whole fraction v) :
    magnitude? (whole ++ if fraction = [] then [] else '.' :: fraction) =
      some (nearestDouble (valueOfDigits (whole ++ fraction)) (-(fraction.length : ℤ))) := by
  obtain ⟨first, others, rfl⟩ := List.exists_cons_of_ne_nil h.whole_ne_nil
  obtain ⟨hi, hn⟩ := toLower_of_isDigit (h.whole_isDigit first List.mem_cons_self)
  rw [magnitude?]
  simp only [List.cons_append, List.map_cons, List.cons.injEq, hi, hn, false_and, or_false,
    if_false]
  rw [← List.cons_append]
  have hwhole (rest : List Char) (hrest : ∀ c ∈ rest.head?, c.isDigit = false) :
      spanDigits (first :: others ++ rest) = (first :: others, rest) := by
    rw [spanDigits, List.takeWhile_append_of_pos h.whole_isDigit,
      List.dropWhile_append_of_pos h.whole_isDigit]
    cases rest with
    | nil => simp
    | cons c rest => simp [hrest c rfl]
  split
  · rename_i hnil
    subst hnil
    rw [hwhole [] (by simp)]
    simp [exponentPart?]
  · rw [hwhole ('.' :: fraction) (by simp)]
    simp only [spanDigits, List.takeWhile_eq_self_iff.mpr h.fraction_isDigit,
      List.dropWhile_eq_nil_iff.mpr h.fraction_isDigit]
    simp [exponentPart?]

end Places

/-- **Numbers as text.** What is written for a finite double is read as the double. -/
theorem read?_plain {x : Float} (hx : x.isFinite = true) : read? (plain x).toList = some x := by
  obtain ⟨negative, v, whole, fraction, hreads, hplaces, htext⟩ :=
    Spelling.plain.exists_ofDouble rfl hx
  have hmagnitude := hplaces.magnitude?_eq
  have hx' := hreads _ _ hplaces.value_eq
  rw [plain, htext]
  change read? (_ ++ (whole ++ if fraction = [] then [] else '.' :: fraction)) = _
  cases negative with
  | true =>
    simp only [if_true, List.cons_append, List.nil_append, read?] at hx' ⊢
    rw [hmagnitude, Option.map_some, hx']
  | false =>
    obtain ⟨first, others, rfl⟩ := List.exists_cons_of_ne_nil hplaces.whole_ne_nil
    have hfirst := hplaces.whole_isDigit first List.mem_cons_self
    have hread : read? (first :: others ++ if fraction = [] then [] else '.' :: fraction) =
        magnitude? (first :: others ++ if fraction = [] then [] else '.' :: fraction) := by
      rw [List.cons_append, read?]
      · exact fun _ => Text.cons_ne_cons hfirst rfl _ _
      · exact fun _ => Text.cons_ne_cons hfirst rfl _ _
    rw [if_neg (by simp), List.nil_append, hread, hmagnitude]
    simpa using hx'

/-- The text of a finite double is of digits, a minus sign and a point. -/
theorem plain_chars {x : Float} (hx : x.isFinite = true) :
    (plain x).toList ≠ [] ∧ ∀ c ∈ (plain x).toList, c.isDigit = true ∨ c = '-' ∨ c = '.' := by
  obtain ⟨negative, v, whole, fraction, -, hplaces, htext⟩ :=
    Spelling.plain.exists_ofDouble rfl hx
  rw [plain, htext]
  refine ⟨by simp [hplaces.whole_ne_nil], ?_⟩
  intro c hc
  rcases List.mem_append.mp hc with hc | hc
  · split at hc
    · exact .inr (.inl (List.mem_singleton.mp hc))
    · exact absurd hc List.not_mem_nil
  · rcases List.mem_append.mp hc with hc | hc
    · exact .inl (hplaces.whole_isDigit c hc)
    · split at hc
      · exact absurd hc List.not_mem_nil
      · rcases List.mem_cons.mp hc with hc | hc
        · exact .inr (.inr hc)
        · exact .inl (hplaces.fraction_isDigit c hc)

end Compander.Decimal
