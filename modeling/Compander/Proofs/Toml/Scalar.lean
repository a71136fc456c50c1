import Compander.Toml.Scalar
import Compander.Proofs.Decimal.Spelling

/-!
# Numbers in documents read back

In a document a number is digits with a point among them, or a word for what is infinite. It is one
run of characters, no date and no time of day, and is read as the double that it was written for:

* `Scalar.ofRun?_eq_float` — a run without colons, and with no minus sign but in front, is no date;
* `Scalar.magnitude?_places` — digits around a point are read as the number that they make;
* `Scalar.read?_document` — what a document says for a double is read as the double.

Every finite double is written with a point, even if it is whole, so that it is read as a double
and not as an integer. The digits are as many as it takes and no
exponent is used; that is a matter of spelling, and reading back does not depend on it.
-/

namespace Compander.Toml.Scalar

open Decimal
open Float.Model (UnpackedFloat)

variable {run : List Char}

/-! ## Neither dates nor times -/

/-- A date has a minus sign that is not in front, between the year and the month. -/
theorem isDate_eq_false (h : '-' ∉ run.tail) : isDate run = false := by
  rw [isDate.eq_def]
  split
  · simp at h
  · rfl

/-- A time has a colon, between the hour and the minute. -/
theorem afterTime?_eq_none (h : ':' ∉ run) : afterTime? run = none := by
  rw [afterTime?.eq_def]
  split
  · simp at h
  · rfl

/-- What is no date and no time is a number, if it is none of the words either. -/
theorem ofRun?_eq_float {x : Float} (hminus : '-' ∉ run.tail) (hcolon : ':' ∉ run)
    (htrue : run ≠ ['t', 'r', 'u', 'e']) (hfalse : run ≠ ['f', 'a', 'l', 's', 'e'])
    (hfloat : float? run = some (.float x)) : ofRun? run = some (.float x) := by
  have htake : '-' ∉ (run.take 10).tail := by
    cases run with
    | nil => simp
    | cons c rest => exact fun h => hminus (List.mem_of_mem_take h)
  have hdate : (isDate run || isTime run || isDateTime run) = false := by
    rw [isDate_eq_false hminus, isTime, afterTime?_eq_none hcolon, isDateTime,
      isDate_eq_false htake]
    rfl
  rw [ofRun?, if_neg htrue, if_neg hfalse, hdate, if_neg Bool.false_ne_true, hfloat]
  rfl

/-! ## Digits -/

theorem digits?_eq_self {isDigit : Char → Bool} (hne : run ≠ [])
    (h : ∀ c ∈ run, isDigit c = true ∧ c ≠ '_') : digits? isDigit run = some run := by
  induction run with
  | nil => exact absurd rfl hne
  | cons c rest ih =>
    obtain ⟨⟨hc, -⟩, hrest⟩ := List.forall_mem_cons.mp h
    cases rest with
    | nil => rw [digits?, if_pos hc]
    | cons d rest =>
      have hd : d ≠ '_' := (hrest d List.mem_cons_self).2
      rw [digits?, if_pos hc, ih (List.cons_ne_nil _ _) hrest]
      · rfl
      · simp
      · simp [hd]

theorem digits?_isDigit (hne : run ≠ []) (h : ∀ c ∈ run, c.isDigit = true) :
    digits? Char.isDigit run = some run := by
  refine digits?_eq_self hne fun c hc => ⟨h c hc, ?_⟩
  rintro rfl
  cases h _ hc

/-- Digits around a point are read as the number that they make, rounded to the nearest
double. -/
theorem magnitude?_places {whole fraction : List Char} {v : ℚ} (h : Places whole fraction v)
    (hne : fraction ≠ []) :
    magnitude? (whole ++ '.' :: fraction) =
      some (nearestDouble (valueOfDigits (whole ++ fraction)) (-(fraction.length : ℤ))) := by
  have hdigit {c : Char} (hc : c.isDigit = true) : isExponentMark c = false ∧ c ≠ '.' := by
    constructor
    · rw [isExponentMark, Bool.or_eq_false_iff, decide_eq_false_iff_not, decide_eq_false_iff_not]
      constructor <;> rintro rfl <;> cases hc
    · rintro rfl
      cases hc
  have hmantissa : ∀ c ∈ whole ++ '.' :: fraction, (!isExponentMark c) = true := by
    intro c hc
    rw [Bool.not_eq_true']
    rcases List.mem_append.mp hc with hc | hc
    · exact (hdigit (h.whole_isDigit c hc)).1
    · rcases List.mem_cons.mp hc with rfl | hc
      · rfl
      · exact (hdigit (h.fraction_isDigit c hc)).1
  have hwhole : ∀ c ∈ whole, decide (c ≠ '.') = true := fun c hc =>
    decide_eq_true (hdigit (h.whole_isDigit c hc)).2
  have hwholeDigits : wholeDigits? whole = some whole := by
    rw [wholeDigits?, digits?_isDigit h.whole_ne_nil h.whole_isDigit]
    split
    · rename_i c rest hzero
      cases h.eq_nil_of_zero _ (Option.some.inj hzero)
    · rfl
  rw [magnitude?]
  simp only [List.takeWhile_eq_self_iff.mpr hmantissa, List.dropWhile_eq_nil_iff.mpr hmantissa,
    List.takeWhile_append_of_pos hwhole, List.dropWhile_append_of_pos hwhole]
  simp [hwholeDigits, digits?_isDigit hne h.fraction_isDigit]

/-! ## The spelling of documents -/

/-- A finite double in a document: a sign, and digits around a point that are read as its
magnitude. -/
theorem exists_document {x : Float} (hx : x.isFinite = true) :
    ∃ negative v whole fraction, ReadsAs v negative x ∧ Places whole fraction v ∧ fraction ≠ [] ∧
      (Spelling.document.ofDouble x).toList =
        (if negative then ['-'] else []) ++ (whole ++ '.' :: fraction) := by
  obtain ⟨negative, v, whole, fraction, hreads, hplaces, htext⟩ :=
    Spelling.document.exists_ofDouble rfl hx
  by_cases hnil : fraction = []
  · subst hnil
    exact ⟨negative, v, whole, ['0'], hreads, hplaces.append_zero, List.cons_ne_nil _ _, htext⟩
  · rw [if_neg hnil] at htext
    exact ⟨negative, v, whole, fraction, hreads, hplaces, hnil, htext⟩

/-- The text of an infinite double, and its value; a sign is all that tells the two apart. -/
theorem infinite_document {x : Float} (hfinite : ¬x.isFinite = true) (hx : x.isNaN = false) :
    ((Spelling.document.ofDouble x).toList = ['i', 'n', 'f'] ∧ x = 1.0 / 0.0) ∨
      ((Spelling.document.ofDouble x).toList = ['-', 'i', 'n', 'f'] ∧ x = -(1.0 / 0.0)) := by
  cases hkind : Double.kind x with
  | finite | zero =>
    change ¬(Double.kind x).isFinite = true at hfinite
    rw [hkind] at hfinite
    exact absurd rfl hfinite
  | notANumber =>
    change (Double.kind x).isNaN = false at hx
    rw [hkind] at hx
    cases hx
  | infinity s =>
    have hmodel := Double.ofModel_pack_kind x
    rw [hkind] at hmodel
    subst hmodel
    cases s with
    | positive => exact .inl ⟨by decide +kernel, by decide +kernel⟩
    | negative => exact .inr ⟨by decide +kernel, by decide +kernel⟩

/-- Digits around a point are the number that they were written for, with the sign put
back. -/
theorem float?_places {x : Float} {negative : Bool} {v : ℚ} {whole fraction : List Char}
    (hx : x.isFinite = true) (hreads : ReadsAs v negative x) (hplaces : Places whole fraction v)
    (hne : fraction ≠ []) :
    float? ((if negative then ['-'] else []) ++ (whole ++ '.' :: fraction)) = some (.float x) := by
  obtain ⟨first, others, rfl⟩ := List.exists_cons_of_ne_nil hplaces.whole_ne_nil
  have hfirst := hplaces.whole_isDigit first List.mem_cons_self
  have hsign : splitSign
      ((if negative then ['-'] else []) ++ (first :: others ++ '.' :: fraction)) =
      (negative, first :: others ++ '.' :: fraction) := by
    cases negative with
    | true => rfl
    | false =>
      simp only [Bool.false_eq_true, if_false, List.nil_append, List.cons_append]
      rw [splitSign]
      · exact fun _ => Text.cons_ne_cons hfirst rfl _ _
      · exact fun _ => Text.cons_ne_cons hfirst rfl _ _
  have hinf : first :: others ++ '.' :: fraction ≠ ['i', 'n', 'f'] :=
    Text.cons_ne_cons hfirst rfl _ _
  have hnan : first :: others ++ '.' :: fraction ≠ ['n', 'a', 'n'] :=
    Text.cons_ne_cons hfirst rfl _ _
  have hvalue := hreads _ _ hplaces.value_eq
  rw [float?]
  simp only [hsign, if_neg hinf, if_neg hnan, magnitude?_places hplaces hne, Option.bind_eq_bind,
    Option.bind_some, hvalue]
  cases negative with
  | true => simp
  | false =>
    rw [if_neg Bool.false_ne_true] at hvalue
    rw [hvalue, if_pos (by simp [hx])]
    rfl

section Run

variable {negative : Bool} {v : ℚ} {whole fraction : List Char} {c : Char}

theorem of_mem_places (h : Places whole fraction v) (hc : c ∈ whole ++ '.' :: fraction) :
    c.isDigit = true ∨ c = '.' := by
  rcases List.mem_append.mp hc with hc | hc
  · exact .inl (h.whole_isDigit c hc)
  · rcases List.mem_cons.mp hc with hc | hc
    · exact .inr hc
    · exact .inl (h.fraction_isDigit c hc)

/-- The characters of a finite double are digits, a point and a minus sign. -/
theorem of_mem_signed (h : Places whole fraction v)
    (hc : c ∈ (if negative then ['-'] else []) ++ (whole ++ '.' :: fraction)) :
    c.isDigit = true ∨ c = '.' ∨ c = '-' := by
  rcases List.mem_append.mp hc with hc | hc
  · split at hc
    · exact .inr (.inr (List.mem_singleton.mp hc))
    · cases hc
  · exact (of_mem_places h hc).imp_right .inl

/-- A minus sign is only in front, so the run is not taken for a date. -/
theorem minus_notMem_tail (h : Places whole fraction v) :
    '-' ∉ ((if negative then ['-'] else []) ++ (whole ++ '.' :: fraction)).tail := by
  intro hminus
  have hmem : '-' ∈ whole ++ '.' :: fraction := by
    split at hminus
    · exact hminus
    · exact List.mem_of_mem_tail hminus
  rcases of_mem_places h hmem with h | h <;> cases h

end Run

/-- The run of a double is read as the double, and all its characters belong to one run. -/
theorem ofRun?_document {x : Float} (hx : x.isNaN = false) :
    ofRun? (Spelling.document.ofDouble x).toList = some (.float x) ∧
      ∀ c ∈ (Spelling.document.ofDouble x).toList, isPart c = true := by
  by_cases hfinite : x.isFinite = true
  · obtain ⟨negative, v, whole, fraction, hreads, hplaces, hne, htext⟩ := exists_document hfinite
    have hrun : ∀ c ∈ (Spelling.document.ofDouble x).toList,
        c.isDigit = true ∨ c = '.' ∨ c = '-' := by
      rw [htext]
      exact fun c hc => of_mem_signed hplaces hc
    have hminus : '-' ∉ (Spelling.document.ofDouble x).toList.tail := by
      rw [htext]
      exact minus_notMem_tail hplaces
    refine ⟨ofRun?_eq_float hminus ?_ ?_ ?_ ?_, ?_⟩
    · intro h
      rcases hrun _ h with h | h | h <;> cases h
    · intro h
      rcases hrun 't' (by simp [h]) with h | h | h <;> cases h
    · intro h
      rcases hrun 'f' (by simp [h]) with h | h | h <;> cases h
    · rw [htext]
      exact float?_places hfinite hreads hplaces hne
    · intro c hc
      obtain h | rfl | rfl := hrun c hc
      · simp [isPart, Char.isAlphanum, h]
      · rfl
      · rfl
  · obtain ⟨htext, rfl⟩ | ⟨htext, rfl⟩ := infinite_document hfinite hx
    · rw [htext]
      exact ⟨rfl, List.all_eq_true.mp rfl⟩
    · rw [htext]
      exact ⟨rfl, List.all_eq_true.mp rfl⟩

/-- **Numbers in documents.** What a document says for a double that is a number, and a line feed
follows, is read as the double. -/
theorem read?_document {x : Float} (hx : x.isNaN = false) (rest : List Char) :
    read? ((Spelling.document.ofDouble x).toList ++ '\n' :: rest) =
      some (.float x, '\n' :: rest) := by
  obtain ⟨hread, hpart⟩ := ofRun?_document hx
  have hfeed : isPart '\n' = false := by decide
  rw [read?]
  simp only [List.takeWhile_append_of_pos hpart, List.dropWhile_append_of_pos hpart,
    List.takeWhile_cons_of_neg (Bool.not_eq_true _ ▸ hfeed),
    List.dropWhile_cons_of_neg (Bool.not_eq_true _ ▸ hfeed), List.append_nil, hread]
  split
  · rename_i h
    cases h
  · rfl

end Compander.Toml.Scalar
