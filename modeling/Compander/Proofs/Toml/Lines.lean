import Mathlib.Data.List.Basic
import Compander.Preset.Document
import Compander.Proofs.Toml.Quoted
import Compander.Proofs.Toml.Scalar

/-!
# Documents of lines read back

A document that gives a value to some keys, a line for each, is read as the table of these keys and
values. Each reader leaves what the next one goes on with:

* `Reader.IsWritten` — a text that is read as a value, if a line feed follows it;
* `Reader.statement?_line` — a line is read as the statement that gives its key the value;
* `Reader.statementsOf?_lines` — lines are read as their statements;
* `Toml.read?_lines` — and these make the table, if no key is given twice.

The readers are bounded, by how deep values may be nested and by how many lines are expected. The
bounds are high enough for what is written: values of such a document are not nested, and it has
no more lines than characters.
-/

namespace Compander.Toml

open Preset (line)

namespace Reader

variable {text rest : List Char} {value : Value} {key : String} {fuel : ℕ}

/-! ## Values -/

/-- A text is read as a value, if a line feed follows it. -/
structure IsWritten (text : List Char) (value : Value) : Prop where
  /-- no blank comes first -/
  dropSpaces_eq : ∀ rest, dropSpaces (text ++ rest) = text ++ rest
  /-- it is read as the value -/
  value?_eq : ∀ fuel rest,
    value? fuel maxNesting (text ++ '\n' :: rest) = some (value, '\n' :: rest)

/-- A character of a kind that blanks are not of is not dropped, so a key or a value begins
where it was put. -/
theorem dropSpaces_cons {kind : Char → Bool} {c : Char} (hc : kind c = true)
    (hspace : kind ' ' = false) (htab : kind '\t' = false) (rest : List Char) :
    dropSpaces (c :: rest) = c :: rest := by
  rw [dropSpaces, List.dropWhile_cons_of_neg]
  rw [Quoted.isSpace, Bool.or_eq_true, decide_eq_true_eq, decide_eq_true_eq]
  rintro (rfl | rfl)
  · rw [hspace] at hc
    cases hc
  · rw [htab] at hc
    cases hc

/-- Quoted text begins with a mark, single or double, whatever form was chosen. -/
theorem exists_quote (text : List Char) :
    ∃ mark more, Quoted.quote text = mark :: more ∧ (mark = '"' ∨ mark = '\x27') := by
  simp only [Quoted.quote]
  split
  · exact ⟨_, _, rfl, .inl rfl⟩
  · split
    · exact ⟨_, _, rfl, .inr rfl⟩
    · split
      · exact ⟨_, _, rfl, .inl rfl⟩
      · split
        · exact ⟨_, _, rfl, .inr rfl⟩
        · split <;> exact ⟨_, _, rfl, .inl rfl⟩

/-- Quoted text is read as the text, with nothing left of its marks. -/
theorem isWritten_quote (text : String) : IsWritten (Quoted.quote text.toList) (.text text) := by
  obtain ⟨mark, more, hquote, hmark⟩ := exists_quote text.toList
  constructor
  · intro rest
    rw [hquote, List.cons_append]
    obtain rfl | rfl := hmark <;> rfl
  · intro fuel rest
    have hread := Quoted.read?_quote text.toList rest
    rw [hquote, List.cons_append] at hread ⊢
    obtain rfl | rfl := hmark
    · rw [maxNesting, value?, hread]
      simp only [Option.map_some, String.ofList_toList]
    · rw [maxNesting, value?, hread]
      simp only [Option.map_some, String.ofList_toList]

/-- A value that begins like a scalar is one, as no other kind of value does. -/
theorem value?_scalar {first : Char} (hfirst : Scalar.isPart first = true) (depth : ℕ)
    (rest : List Char) : value? fuel depth (first :: rest) = Scalar.read? (first :: rest) := by
  rw [value?]
  · exact fun _ => Text.cons_ne_cons hfirst rfl _ _
  · exact fun _ => Text.cons_ne_cons hfirst rfl _ _
  · exact fun _ _ _ => Text.cons_ne_cons hfirst rfl _ _
  · exact fun _ _ _ => Text.cons_ne_cons hfirst rfl _ _

/-- A number is read as the double that it was written for, an infinity too. -/
theorem isWritten_number {x : Float} (hx : x.isNaN = false) :
    IsWritten (Decimal.Spelling.document.ofDouble x).toList (.float x) := by
  obtain ⟨hread, hpart⟩ := Scalar.ofRun?_document hx
  obtain ⟨first, more, htext⟩ : ∃ first more,
      (Decimal.Spelling.document.ofDouble x).toList = first :: more := by
    refine List.exists_cons_of_ne_nil fun hnil => ?_
    rw [hnil] at hread
    cases hread
  have hfirst : Scalar.isPart first = true := hpart first (by simp [htext])
  constructor
  · intro rest
    rw [htext, List.cons_append, dropSpaces_cons hfirst rfl rfl]
  · intro fuel rest
    have hscalar := Scalar.read?_document hx rest
    rw [htext, List.cons_append] at hscalar ⊢
    rw [value?_scalar hfirst, hscalar]

/-! ## Lines -/

/-- A key that can be written without quotes. -/
structure IsKey (key : String) : Prop where
  /-- it has a character -/
  ne_nil : key.toList ≠ []
  /-- and only such as need no quotes -/
  isBare : ∀ c ∈ key.toList, isBare c = true

theorem IsKey.exists_cons (h : IsKey key) :
    ∃ first more, key.toList = first :: more ∧ Reader.isBare first = true := by
  obtain ⟨first, more, hcons⟩ := List.exists_cons_of_ne_nil h.ne_nil
  exact ⟨first, more, hcons, h.isBare first (by simp [hcons])⟩

theorem line_append (key : String) (text rest : List Char) :
    line key text ++ rest = key.toList ++ ' ' :: '=' :: ' ' :: (text ++ '\n' :: rest) := by
  simp [line]

/-- A bare key is read up to the blank that follows it, and is not dotted. -/
theorem key?_eq (hkey : IsKey key) (rest : List Char) :
    key? maxNesting (key.toList ++ ' ' :: '=' :: rest) = some ([key], '=' :: rest) := by
  obtain ⟨first, more, hcons, hfirst⟩ := hkey.exists_cons
  have hquote : ¬(first = '"' ∨ first = '\x27') := by
    rintro (rfl | rfl) <;> cases hfirst
  have hpart : keyPart? (key.toList ++ ' ' :: '=' :: rest) = some (key, ' ' :: '=' :: rest) := by
    have hblank : ¬Reader.isBare ' ' = true := by decide
    have htake : (key.toList ++ ' ' :: '=' :: rest).takeWhile Reader.isBare = key.toList := by
      rw [List.takeWhile_append_of_pos hkey.isBare, List.takeWhile_cons_of_neg hblank,
        List.append_nil]
    have hdrop : (key.toList ++ ' ' :: '=' :: rest).dropWhile Reader.isBare =
        ' ' :: '=' :: rest := by
      rw [List.dropWhile_append_of_pos hkey.isBare, List.dropWhile_cons_of_neg hblank]
    rw [hcons, List.cons_append] at htake hdrop ⊢
    rw [keyPart?, if_neg hquote, if_pos hfirst, htake, hdrop, ← hcons, String.ofList_toList]
  have hdrop : dropSpaces (key.toList ++ ' ' :: '=' :: rest) =
      key.toList ++ ' ' :: '=' :: rest := by
    rw [hcons, List.cons_append, dropSpaces_cons hfirst rfl rfl]
  have hequals : dropSpaces (' ' :: '=' :: rest) = '=' :: rest := rfl
  rw [maxNesting, key?]
  simp only [hdrop, hpart, hequals, Option.bind_eq_bind, Option.bind_some]
  rfl

/-- A line is read as the statement that gives its key the value, and the line feed at its end
is consumed. -/
theorem statement?_line (hkey : IsKey key) (htext : IsWritten text value) (rest : List Char) :
    statement? fuel (line key text ++ rest) = some (.assign [] key value, rest) := by
  obtain ⟨first, more, hcons, hfirst⟩ := hkey.exists_cons
  have hvalue : dropSpaces (' ' :: (text ++ '\n' :: rest)) = text ++ '\n' :: rest :=
    htext.dropSpaces_eq _
  have hpair : pair? (value? fuel maxNesting) (line key text ++ rest) =
      some (([], key, value), '\n' :: rest) := by
    rw [line_append, pair?, key?_eq hkey]
    simp only [Option.bind_eq_bind, Option.bind_some, splitKey?, hvalue, htext.value?_eq]
    rfl
  have hend : endLine? ('\n' :: rest) = some rest := rfl
  rw [statement?]
  · rw [hpair]
    simp only [Option.bind_eq_bind, Option.bind_some, hend]
    rfl
  · rw [line_append, hcons]
    exact fun _ => Text.cons_ne_cons hfirst rfl _ _

/-- A line begins with neither a blank nor a comment nor a line end, so it is the next
statement. -/
theorem dropComment_line (hkey : IsKey key) (text rest : List Char) :
    dropSpaces (line key text ++ rest) = line key text ++ rest ∧
      dropComment (line key text ++ rest) = line key text ++ rest ∧
        Quoted.afterLineEnd? (line key text ++ rest) = none := by
  obtain ⟨first, more, hcons, hfirst⟩ := hkey.exists_cons
  rw [line_append, hcons, List.cons_append]
  refine ⟨dropSpaces_cons hfirst rfl rfl _, ?_, ?_⟩
  · rw [dropComment]
    exact fun _ => Text.cons_ne_cons hfirst rfl _ _
  · rw [Quoted.afterLineEnd?]
    · exact fun _ => Text.cons_ne_cons hfirst rfl _ _
    · exact fun _ => Text.cons_ne_cons hfirst rfl _ _

variable {write : Value → List Char} {entries : Entries}

/-- Lines are read as their statements, in their order, given that more lines are expected
than there are. -/
theorem statementsOf?_lines {lines : ℕ} (hlines : entries.length < lines)
    (h : ∀ e ∈ entries, IsKey e.1 ∧ IsWritten (write e.2) e.2) :
    statementsOf? fuel lines (entries.flatMap fun e => line e.1 (write e.2)) =
      some (entries.map fun e => .assign [] e.1 e.2) := by
  induction entries generalizing lines with
  | nil =>
    obtain ⟨n, rfl⟩ := Nat.exists_eq_add_one_of_ne_zero (Nat.ne_of_gt hlines)
    rfl
  | cons e entries ih =>
    obtain ⟨n, rfl⟩ := Nat.exists_eq_add_one_of_ne_zero (Nat.ne_zero_of_lt hlines)
    obtain ⟨⟨hkey, htext⟩, hrest⟩ := List.forall_mem_cons.mp h
    obtain ⟨hspaces, hcomment, hend⟩ :=
      dropComment_line hkey (write e.2) (entries.flatMap fun e => line e.1 (write e.2))
    rw [List.flatMap_cons, statementsOf?, hspaces, hcomment]
    split
    · rename_i hnil
      simp [line] at hnil
    · rw [hend, statement?_line hkey htext]
      simp only [Option.bind_eq_bind, Option.bind_some, ih (Nat.lt_of_succ_lt_succ hlines) hrest]
      rfl

end Reader

/-! ## Tables -/

variable {write : Value → List Char} {entries : Entries} {key : String} {value : Value}

namespace Entries

/-- A key that is not among the keys has no value. -/
theorem find?_eq_none (h : key ∉ entries.map Prod.fst) : entries.find? key = none := by
  rw [find?, List.lookup_eq_none_iff]
  intro e he
  rw [bne_iff_ne]
  rintro rfl
  exact h (List.mem_map_of_mem he)

/-- A key that is not among the keys is put at the end, so the order of the lines is kept. -/
theorem put_eq_append (h : key ∉ entries.map Prod.fst) :
    entries.put key value = entries ++ [(key, value)] := by
  induction entries with
  | nil => rfl
  | cons e entries ih =>
    rw [List.map_cons, List.mem_cons, not_or] at h
    rw [put, if_neg (Ne.symm h.1), ih h.2]
    rfl

/-- A value that is given to a key of its own is put at the end. -/
theorem assign?_eq_append (h : key ∉ entries.map Prod.fst) :
    entries.assign? [] key value = some (entries ++ [(key, value)]) := by
  rw [assign?, find?_eq_none h, put_eq_append h]

end Entries

/-- Statements that give values to different keys make the table of these, on top of what is
there before. -/
theorem foldlM_assign {before : Entries} (h : ((before ++ entries).map Prod.fst).Nodup) :
    (entries.map fun e => Statement.assign [] e.1 e.2).foldlM Draft.add? ⟨before, []⟩ =
      some ⟨before ++ entries, []⟩ := by
  induction entries generalizing before with
  | nil => simp
  | cons e entries ih =>
    rw [List.append_cons] at h ⊢
    have hkey : e.1 ∉ before.map Prod.fst := by
      intro hmem
      rw [List.map_append, List.nodup_append, List.map_append, List.nodup_append] at h
      exact h.1.2.2 _ hmem _ (List.mem_singleton.mpr rfl) rfl
    have hadd : Draft.add? ⟨before, []⟩ (.assign [] e.1 e.2) = some ⟨before ++ [e], []⟩ := by
      rw [Draft.add?, Entries.within?, Entries.assign?_eq_append hkey]
      rfl
    rw [List.map_cons, List.foldlM_cons, hadd]
    exact ih h

/-- There are no more lines than characters, so the bound taken from the text is enough. -/
theorem length_le_length_lines (write : Value → List Char) (entries : Entries) :
    entries.length ≤ (entries.flatMap fun e => line e.1 (write e.2)).length := by
  induction entries with
  | nil => exact Nat.zero_le _
  | cons e entries ih =>
    rw [List.flatMap_cons, List.length_append, List.length_cons, line, List.length_append,
      List.length_singleton]
    omega

/-- **Lines.** Lines that give values to different keys are read as the table of these. -/
theorem read?_lines (h : ∀ e ∈ entries, Reader.IsKey e.1 ∧ Reader.IsWritten (write e.2) e.2)
    (hkeys : (entries.map Prod.fst).Nodup) :
    read? (entries.flatMap fun e => line e.1 (write e.2)) = some entries := by
  set text := entries.flatMap fun e => line e.1 (write e.2) with htext
  have hmark : Reader.dropMark text = text := by
    cases entries with
    | nil => rfl
    | cons e entries =>
      obtain ⟨hkey, -⟩ := h e List.mem_cons_self
      obtain ⟨first, more, hcons, hfirst⟩ := hkey.exists_cons
      rw [htext, List.flatMap_cons, Reader.line_append, hcons, Reader.dropMark]
      exact fun _ => Text.cons_ne_cons hfirst rfl _ _
  have hlines : entries.length < text.length + 1 :=
    Nat.lt_succ_of_le (length_le_length_lines write entries)
  have hstatements : statements? text = some (entries.map fun e => .assign [] e.1 e.2) := by
    simp only [statements?, hmark]
    exact Reader.statementsOf?_lines hlines h
  have htable : (entries.map fun e => Statement.assign [] e.1 e.2).foldlM Draft.add? {} =
      some ⟨entries, []⟩ := foldlM_assign (by exact hkeys)
  rw [read?, hstatements]
  simp only [Option.bind_eq_bind, Option.bind_some, htable]
  rfl

end Compander.Toml
