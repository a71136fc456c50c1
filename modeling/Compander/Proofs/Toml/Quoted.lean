import Mathlib.Data.List.Basic
import Compander.Toml.Quoted

/-!
# Quoted text read back

A text is quoted in one of five forms, and each of them is undone by the reader of its marks. Only
what stands next to a closing mark needs care: the marks of the text that come just before it, and
the line feed that may follow an opening one.

* `Quoted.escape_cases` — a character stands for itself, or an escape is read as it;
* `Quoted.readDouble?_escaped`, `Quoted.readSingle?_plain` — text on one line;
* `Quoted.readLinesDouble?_escaped`, `Quoted.readLinesSingle?_plain` — text between triple marks;
* `Quoted.read?_quote` — quoted text that a line feed follows is read as the text.

Between triple marks a run of marks in the text must not be taken for the closing one, so every
third mark of a run is escaped, and where nothing can be escaped there is no such run. The proofs
carry along how many marks have come just before, as the writer does.
-/

namespace Compander.Toml.Quoted

variable {c : Char} {text rest : List Char}

/-! ## Escapes -/

/-- Whether a four-digit escape is read as the character of a number. -/
def isHexEscape (n : ℕ) : Bool :=
  match hexEscape (Char.ofNat n) with
  | ['\\', 'u', a, b, c, d] => hexChar? [a, b, c, d] == some (Char.ofNat n)
  | _ => false

theorem isHexEscape_of_lt : ∀ n < 128, isHexEscape n = true := by
  decide +kernel

theorem toNat_lt_of_isControl (h : isControl c = true) : c.toNat < 128 := by
  rw [isControl, Bool.or_eq_true, Bool.and_eq_true, Bool.and_eq_true] at h
  simp only [decide_eq_true_eq] at h
  omega

/-- A control character is escaped by its number, in four hexadecimal digits that are read as
it. -/
theorem exists_hexEscape (h : isControl c = true) :
    ∃ w x y z, hexEscape c = ['\\', 'u', w, x, y, z] ∧ hexChar? [w, x, y, z] = some c := by
  have hread := isHexEscape_of_lt c.toNat (toNat_lt_of_isControl h)
  rw [isHexEscape, Char.ofNat_toNat] at hread
  split at hread
  · rename_i w x y z hescape
    exact ⟨w, x, y, z, hescape, beq_iff_eq.mp hread⟩
  · cases hread

/-- A character stands for itself, or an escape is read as it, however the text goes on. An escape
does not look like the end of a line. -/
theorem escape_cases (c : Char) :
    (escape c = [c] ∧ isPlain c = true ∧ c ≠ '"' ∧ c ≠ '\\' ∧ c ≠ '\r') ∨
      ∃ first more, escape c = '\\' :: first :: more ∧
        (isSpace first = false ∧ first ≠ '\n' ∧ first ≠ '\r') ∧
        ∀ rest, escaped? (first :: more ++ rest) = some (c, more.length + 1) := by
  have short (letter : Char) (hletter : isSpace letter = false ∧ letter ≠ '\n' ∧ letter ≠ '\r')
      (hread : ∀ rest, escaped? (letter :: rest) = some (c, 1))
      (hescape : escape c = ['\\', letter]) :
      ∃ first more, escape c = '\\' :: first :: more ∧
        (isSpace first = false ∧ first ≠ '\n' ∧ first ≠ '\r') ∧
        ∀ rest, escaped? (first :: more ++ rest) = some (c, more.length + 1) :=
    ⟨letter, [], hescape, hletter, hread⟩
  by_cases hb : c = '\x08'
  · subst hb
    exact .inr (short 'b' (by decide) (fun _ => rfl) rfl)
  by_cases ht : c = '\t'
  · subst ht
    exact .inr (short 't' (by decide) (fun _ => rfl) rfl)
  by_cases hn : c = '\n'
  · subst hn
    exact .inr (short 'n' (by decide) (fun _ => rfl) rfl)
  by_cases hf : c = '\x0c'
  · subst hf
    exact .inr (short 'f' (by decide) (fun _ => rfl) rfl)
  by_cases hr : c = '\r'
  · subst hr
    exact .inr (short 'r' (by decide) (fun _ => rfl) rfl)
  by_cases hq : c = '"'
  · subst hq
    exact .inr (short '"' (by decide) (fun _ => rfl) rfl)
  by_cases hs : c = '\\'
  · subst hs
    exact .inr (short '\\' (by decide) (fun _ => rfl) rfl)
  have hescape : escape c = if isControl c then hexEscape c else [c] := by
    rw [escape, if_neg hb, if_neg ht, if_neg hn, if_neg hf, if_neg hr, if_neg hq, if_neg hs]
  by_cases hcontrol : isControl c = true
  · obtain ⟨w, x, y, z, hhex, hread⟩ := exists_hexEscape hcontrol
    rw [if_pos hcontrol, hhex] at hescape
    refine .inr ⟨'u', [w, x, y, z], hescape, by decide, fun rest => ?_⟩
    simp [escaped?, hread]
  · rw [if_neg hcontrol] at hescape
    refine .inl ⟨hescape, ?_, hq, hs, hr⟩
    simp [isPlain, hcontrol, hn]

/-! ## Text on one line -/

/-- What is escaped between double marks is read back, up to the first mark that is not
escaped. -/
theorem readDouble?_escaped (text rest : List Char) :
    readDouble? (text.flatMap escape ++ '"' :: rest) = some (text, rest) := by
  induction text with
  | nil => rw [List.flatMap_nil, List.nil_append, readDouble?]
  | cons c text ih =>
    rw [List.flatMap_cons, List.append_assoc]
    obtain ⟨hescape, hplain, hmark, hslash, -⟩ | ⟨first, more, hescape, -, hread⟩ := escape_cases c
    · rw [hescape, List.singleton_append, readDouble?, if_pos hplain, ih]
      · rfl
      · exact hmark
      · exact hslash
    · rw [hescape, List.cons_append, readDouble?, hread]
      simp only [List.cons_append, List.drop_succ_cons, List.drop_left, ih]
      rfl

/-- What stands for itself between single marks is read back, up to the first such mark. -/
theorem readSingle?_plain (h : ∀ c ∈ text, isPlain c = true ∧ c ≠ '\x27') :
    readSingle? (text ++ '\x27' :: rest) = some (text, rest) := by
  induction text with
  | nil => rw [List.nil_append, readSingle?]
  | cons c text ih =>
    obtain ⟨⟨hplain, hmark⟩, htext⟩ := List.forall_mem_cons.mp h
    rw [List.cons_append, readSingle?, if_pos hplain, ih htext]
    · rfl
    · exact hmark

/-! ## Text between triple double marks -/

/-- A mark that not two more follow is part of the text, as only three of them close it. -/
theorem readLinesDouble?_mark (h : ∀ more, rest ≠ '"' :: '"' :: more) :
    readLinesDouble? ('"' :: rest) = (readLinesDouble? rest).map (prepend '"') :=
  readLinesDouble?.eq_5 rest (fun _ => h _) (fun _ => h _) (fun _ => h _)

/-- An escape is read as its character, unless it is one that joins two lines. -/
theorem readLinesDouble?_escape {first : Char} {more : List Char}
    (hfirst : isSpace first = false ∧ first ≠ '\n' ∧ first ≠ '\r')
    (hread : escaped? (first :: more ++ rest) = some (c, more.length + 1)) :
    readLinesDouble? ('\\' :: (first :: more ++ rest)) =
      (readLinesDouble? rest).map (prepend c) := by
  obtain ⟨hspace, hfeed, hreturn⟩ := hfirst
  have hline : afterLineEnd? ((first :: more ++ rest).dropWhile isSpace) = none := by
    rw [List.cons_append, List.dropWhile_cons_of_neg (by simp [hspace]), afterLineEnd?]
    · exact fun _ h => hfeed (List.cons.inj h).1
    · exact fun _ h => hreturn (List.cons.inj h).1
  rw [readLinesDouble?, hline, hread]
  simp

/-- A character that is no mark is read back, a line feed as it stands and any other as itself
or by its escape. -/
theorem readLinesDouble?_char (hmark : c ≠ '"') (rest : List Char) :
    readLinesDouble? ((if c = '\n' then ['\n'] else escape c) ++ rest) =
      (readLinesDouble? rest).map (prepend c) := by
  by_cases hfeed : c = '\n'
  · rw [if_pos hfeed, hfeed, List.singleton_append, readLinesDouble?]
  · rw [if_neg hfeed]
    obtain ⟨hescape, hplain, -, hslash, hreturn⟩ | ⟨first, more, hescape, hfirst, hread⟩ :=
      escape_cases c
    · rw [hescape, List.singleton_append, readLinesDouble?, if_pos hplain]
      all_goals
        intros
        contradiction
    · rw [hescape, List.cons_append, readLinesDouble?_escape hfirst (hread rest)]

theorem escapeLines_cons_of_ne (hmark : c ≠ '"') (run : ℕ) (text : List Char) :
    escapeLines run (c :: text) =
      (if c = '\n' then ['\n'] else escape c) ++ escapeLines 0 text := by
  rw [escapeLines, if_neg hmark]
  split <;> rfl

/-- No other character is written with a mark in front, so a run of marks ends where it does
in the text. -/
theorem escapeLines_ne_mark (hmark : c ≠ '"') (run : ℕ) (text rest more : List Char) :
    escapeLines run (c :: text) ++ rest ≠ '"' :: more := by
  rw [escapeLines_cons_of_ne hmark]
  by_cases hfeed : c = '\n'
  · simp [hfeed]
  · rw [if_neg hfeed]
    obtain ⟨hescape, -⟩ | ⟨first, others, hescape, -⟩ := escape_cases c
    · simp [hescape, hmark]
    · simp [hescape]

/-- Nor is the third of a run of marks, since it is escaped. -/
theorem escapeLines_two_ne_mark (c : Char) (text rest more : List Char) :
    escapeLines 2 (c :: text) ++ rest ≠ '"' :: more := by
  by_cases hmark : c = '"'
  · simp [escapeLines, hmark]
  · exact escapeLines_ne_mark hmark 2 text rest more

/-- After a mark of the text not two more are written, if there is more text than these. -/
theorem escapeLines_ne_marks {run : ℕ} (hrun : run = 1 ∨ run = 2) (hnil : text ≠ [])
    (hone : ¬(run = 1 ∧ text = ['"'])) (more : List Char) :
    escapeLines run text ++ rest ≠ '"' :: '"' :: more := by
  obtain ⟨c, text, rfl⟩ := List.exists_cons_of_ne_nil hnil
  by_cases hmark : c = '"'
  · obtain rfl | rfl := hrun
    · have htext : text ≠ [] := fun h => hone ⟨rfl, by rw [hmark, h]⟩
      obtain ⟨c', text, rfl⟩ := List.exists_cons_of_ne_nil htext
      rw [escapeLines, if_pos hmark, if_neg (by decide), List.cons_append]
      intro h
      exact escapeLines_two_ne_mark c' text rest more (List.cons.inj h).2
    · exact escapeLines_two_ne_mark c text rest _
  · exact escapeLines_ne_mark hmark run text rest _

/-- What is written between triple double marks is read back, whatever marks it ends with. -/
theorem readLinesDouble?_escaped {run : ℕ} (hrun : run ≤ 2) (text rest : List Char) :
    readLinesDouble? (escapeLines run text ++ '"' :: '"' :: '"' :: '\n' :: rest) =
      some (text, '\n' :: rest) := by
  induction text generalizing run with
  | nil => rw [escapeLines, List.nil_append, readLinesDouble?] <;> simp
  | cons c text ih =>
    by_cases hmark : c = '"'
    · subst hmark
      by_cases hthird : run = 2
      · rw [escapeLines, if_pos rfl, if_pos hthird, List.cons_append]
        have hescape (body : List Char) : readLinesDouble? ('\\' :: ('"' :: [] ++ body)) =
            (readLinesDouble? body).map (prepend '"') := readLinesDouble?_escape (by decide) rfl
        rw [List.cons_append, ← List.nil_append (escapeLines 0 text ++ _), ← List.cons_append,
          hescape, ih (by decide)]
        rfl
      · rw [escapeLines, if_pos rfl, if_neg hthird, List.cons_append]
        by_cases hnil : text = []
        · subst hnil
          rw [escapeLines, List.nil_append, readLinesDouble?]
          simp
        · by_cases hone : run + 1 = 1 ∧ text = ['"']
          · obtain ⟨hfirst, rfl⟩ := hone
            rw [hfirst]
            exact readLinesDouble?.eq_2 ('\n' :: rest)
          · rw [readLinesDouble?_mark (escapeLines_ne_marks (by omega) hnil hone),
              ih (by omega)]
            rfl
    · rw [escapeLines_cons_of_ne hmark, List.append_assoc, readLinesDouble?_char hmark,
        ih (by decide)]
      rfl

/-! ## Text between triple single marks -/

/-- A mark that not two more follow is part of the text, and nothing is escaped here. -/
theorem readLinesSingle?_mark (h : ∀ more, rest ≠ '\x27' :: '\x27' :: more) :
    readLinesSingle? ('\x27' :: rest) = (readLinesSingle? rest).map (prepend '\x27') :=
  readLinesSingle?.eq_5 rest (fun _ => h _) (fun _ => h _) (fun _ => h _)

theorem readLinesSingle?_char (hplain : isControl c = false) (hmark : c ≠ '\x27')
    (rest : List Char) :
    readLinesSingle? (c :: rest) = (readLinesSingle? rest).map (prepend c) := by
  by_cases hfeed : c = '\n'
  · rw [hfeed, readLinesSingle?]
  · have hreturn : c ≠ '\r' := by
      rintro rfl
      cases hplain
    rw [readLinesSingle?, if_pos (by simp [isPlain, hplain, hfeed])] <;> intros <;> contradiction

/-- In text without three marks in a row, not two more follow a mark, if there is more text than
these. -/
theorem ne_marks_of_hasTriple {run : ℕ} (hrun : run = 1 ∨ run = 2)
    (htriple : hasTriple '\x27' run text = false) (hnil : text ≠ []) (hone : text ≠ ['\x27'])
    (more : List Char) : text ++ rest ≠ '\x27' :: '\x27' :: more := by
  obtain ⟨c, text, rfl⟩ := List.exists_cons_of_ne_nil hnil
  rw [List.cons_append]
  intro h
  obtain ⟨rfl, hrest⟩ := List.cons.inj h
  have htext : text ≠ [] := fun hnil => hone (by rw [hnil])
  obtain ⟨c, text, rfl⟩ := List.exists_cons_of_ne_nil htext
  obtain ⟨rfl, -⟩ := List.cons.inj hrest
  obtain rfl | rfl := hrun <;> simp [hasTriple] at htriple

/-- What is written between triple single marks is read back, as it has no three of them in a
row. -/
theorem readLinesSingle?_plain {run : ℕ} (hplain : ∀ c ∈ text, isControl c = false)
    (htriple : hasTriple '\x27' run text = false) (hrun : run ≤ 2) :
    readLinesSingle? (text ++ '\x27' :: '\x27' :: '\x27' :: '\n' :: rest) =
      some (text, '\n' :: rest) := by
  induction text generalizing run with
  | nil => rw [List.nil_append, readLinesSingle?] <;> simp
  | cons c text ih =>
    obtain ⟨hc, htext⟩ := List.forall_mem_cons.mp hplain
    rw [hasTriple] at htriple
    by_cases hmark : c = '\x27'
    · subst hmark
      rw [if_pos rfl, Bool.or_eq_false_iff, decide_eq_false_iff_not] at htriple
      obtain ⟨hthird, htriple⟩ := htriple
      by_cases hnil : text = []
      · subst hnil
        rw [List.singleton_append, readLinesSingle?]
        simp
      · by_cases hone : text = ['\x27']
        · subst hone
          exact readLinesSingle?.eq_2 ('\n' :: rest)
        · rw [List.cons_append,
            readLinesSingle?_mark (ne_marks_of_hasTriple (by omega) htriple hnil hone),
            ih htext htriple (by omega)]
          rfl
    · rw [if_neg hmark] at htriple
      rw [List.cons_append, readLinesSingle?_char hc hmark, ih htext htriple (by decide)]
      rfl

/-! ## The five forms -/

/-- The line feed that opens a text with line feeds is dropped, and nothing else is. -/
theorem dropLineEnd_opening {body : List Char}
    (h : '\n' ∉ text → ∀ more, body ≠ '\n' :: more ∧ body ≠ '\r' :: '\n' :: more) :
    dropLineEnd (opening text ++ body) = body := by
  rw [opening]
  split
  · rfl
  · rename_i hnone
    have hnone : '\n' ∉ text := by simpa using hnone
    rw [List.nil_append, dropLineEnd, afterLineEnd?]
    · rfl
    · exact fun more => (h hnone more).1
    · exact fun more => (h hnone more).2

/-- Text between double marks, on one line, is read as the text that was escaped. -/
theorem read?_double (text rest : List Char) :
    read? ('"' :: (text.flatMap escape ++ ['"']) ++ '\n' :: rest) = some (text, '\n' :: rest) := by
  have hread := readDouble?_escaped text ('\n' :: rest)
  rw [List.cons_append, List.append_assoc, List.singleton_append, read?, readInLine?, hread]
  · cases text with
    | nil => simp
    | cons c text =>
      obtain ⟨hescape, -, hmark, -⟩ | ⟨first, others, hescape, -⟩ := escape_cases c
      · simp [hescape, hmark]
      · simp [hescape]
  · simp

/-- Text between single marks, on one line, is read as it stands. -/
theorem read?_single (h : ∀ c ∈ text, isPlain c = true ∧ c ≠ '\x27') :
    read? ('\x27' :: (text ++ ['\x27']) ++ '\n' :: rest) = some (text, '\n' :: rest) := by
  have hread : readSingle? (text ++ '\x27' :: '\n' :: rest) = some (text, '\n' :: rest) :=
    readSingle?_plain h
  rw [List.cons_append, List.append_assoc, List.singleton_append, read?, readInLine?, hread]
  · simp
  · cases text with
    | nil => simp
    | cons c text => simp [(h c List.mem_cons_self).2]

/-- Text between triple double marks is read back, with the line feed after the opening ones
left out. -/
theorem read?_linesDouble (text rest : List Char) :
    read? (['"', '"', '"'] ++ opening text ++ escapeLines 0 text ++ ['"', '"', '"'] ++
        '\n' :: rest) =
      some (text, '\n' :: rest) := by
  have hopen : dropLineEnd
      (opening text ++ (escapeLines 0 text ++ '"' :: '"' :: '"' :: '\n' :: rest)) =
      escapeLines 0 text ++ '"' :: '"' :: '"' :: '\n' :: rest := by
    refine dropLineEnd_opening fun hnone more => ?_
    cases text with
    | nil => simp [escapeLines]
    | cons c text =>
      by_cases hmark : c = '"'
      · simp [escapeLines, hmark]
      · have hfeed : c ≠ '\n' := fun h => hnone (by simp [h])
        rw [escapeLines_cons_of_ne hmark, if_neg hfeed]
        obtain ⟨hescape, -, -, -, hreturn⟩ | ⟨first, others, hescape, -⟩ := escape_cases c
        · simp [hescape, hfeed, hreturn]
        · simp [hescape]
  simp only [List.append_assoc, List.cons_append, List.nil_append, read?]
  rw [hopen, readLinesDouble?_escaped (by decide)]

/-- Text between triple single marks is read back, if it has no control characters and no such
run of marks. -/
theorem read?_linesSingle (hplain : ∀ c ∈ text, isControl c = false)
    (htriple : hasTriple '\x27' 0 text = false) :
    read? (['\x27', '\x27', '\x27'] ++ opening text ++ text ++ ['\x27', '\x27', '\x27'] ++
      '\n' :: rest) = some (text, '\n' :: rest) := by
  have hopen : dropLineEnd (opening text ++ (text ++ '\x27' :: '\x27' :: '\x27' :: '\n' :: rest)) =
      text ++ '\x27' :: '\x27' :: '\x27' :: '\n' :: rest := by
    refine dropLineEnd_opening fun hnone more => ?_
    cases text with
    | nil => simp
    | cons c text =>
      have hfeed : c ≠ '\n' := fun h => hnone (by simp [h])
      have hreturn : c ≠ '\r' := by
        rintro rfl
        cases hplain _ List.mem_cons_self
      simp [hfeed, hreturn]
  simp only [List.append_assoc, List.cons_append, List.nil_append, read?]
  rw [hopen, readLinesSingle?_plain hplain htriple (by decide)]

/-- **Quoted text.** What is written for a text, and a line feed follows, is read as the text. -/
theorem read?_quote (text rest : List Char) :
    read? (quote text ++ '\n' :: rest) = some (text, '\n' :: rest) := by
  simp only [quote]
  split
  · exact read?_double text rest
  · split
    · rename_i hform
      simp only [Bool.and_eq_true, Bool.not_eq_true', List.any_eq_false, List.contains_eq_mem,
        decide_eq_false_iff_not] at hform
      obtain ⟨⟨hplain, hmark⟩, hlines⟩ := hform
      refine read?_single fun c hc => ⟨?_, fun h => hmark (h ▸ hc)⟩
      have hfeed : c ≠ '\n' := fun h => hlines (h ▸ hc)
      simp [isPlain, hplain c hc, hfeed]
    · split
      · exact read?_linesDouble text rest
      · split
        · rename_i hform
          simp only [Bool.and_eq_true, Bool.not_eq_true', List.any_eq_false, Bool.not_eq_true]
            at hform
          exact read?_linesSingle hform.1 hform.2
        · split
          · exact read?_linesDouble text rest
          · exact read?_double text rest

end Compander.Toml.Quoted
