import Mathlib.Data.List.DropRight
import Compander.Text.Blank

/-!
# Cutting joined text

Pieces that are joined with a separator are cut apart again where it stands, if it stands in none
of them:

* `Text.splitOn_joinWith` — at every separator;
* `Text.splitOnce?_append` — at the first one;
* `Text.notMem_of_mem_splitOn` — no piece of a cut text has the separator;
* `Text.trim_eq_self` — text without blanks is not trimmed;
* `Text.trim_trim` — neither is text that has been trimmed;
* `Text.cons_ne_cons` — texts that begin with characters of different kinds differ.

These lemmas are about lists of characters. A text that is written is a list until it is finished,
and a text that is read becomes one first, so there is no other way to cut.
-/

namespace Compander.Text

variable {separator : Char} {text left right : List Char} {pieces : List (List Char)}

/-! ## Cutting -/

/-- Text without a separator is one piece, and an empty text is one empty piece. -/
theorem splitOn_of_notMem (h : separator ∉ text) : splitOn separator text = [text] := by
  induction text with
  | nil => rfl
  | cons c rest ih =>
    rw [List.mem_cons, not_or] at h
    rw [splitOn, if_neg (Ne.symm h.1), ih h.2]

/-- Text up to a separator is the first piece, and the rest is cut on its own. -/
theorem splitOn_append (h : separator ∉ left) :
    splitOn separator (left ++ separator :: right) = left :: splitOn separator right := by
  induction left with
  | nil => rw [List.nil_append, splitOn, if_pos rfl]
  | cons c rest ih =>
    rw [List.mem_cons, not_or] at h
    rw [List.cons_append, splitOn, if_neg (Ne.symm h.1), ih h.2]

/-- **Cutting joined text.** Pieces without the separator come back, if there is at least one;
no pieces and one empty piece are joined alike. -/
theorem splitOn_joinWith (hne : pieces ≠ []) (h : ∀ piece ∈ pieces, separator ∉ piece) :
    splitOn separator (joinWith separator pieces) = pieces := by
  fun_induction joinWith separator pieces with
  | case1 => exact absurd rfl hne
  | case2 piece => exact splitOn_of_notMem (h piece List.mem_cons_self)
  | case3 piece pieces hpieces ih =>
    rw [splitOn_append (h piece List.mem_cons_self),
      ih hpieces fun p hp => h p (List.mem_cons_of_mem _ hp)]

/-- What is cut at a separator does not have it, so a piece may be joined again. -/
theorem notMem_of_mem_splitOn {piece : List Char} (h : piece ∈ splitOn separator text) :
    separator ∉ piece := by
  induction text generalizing piece with
  | nil =>
    rw [splitOn, List.mem_singleton] at h
    rw [h]
    exact List.not_mem_nil
  | cons c rest ih =>
    rw [splitOn] at h
    split at h
    · rcases List.mem_cons.mp h with rfl | h
      · exact List.not_mem_nil
      · exact ih h
    · rename_i hc
      split at h
      · rw [List.mem_singleton.mp h, List.mem_singleton]
        exact Ne.symm hc
      · rename_i first pieces hcut
        rw [hcut] at ih
        rcases List.mem_cons.mp h with rfl | h
        · rw [List.mem_cons, not_or]
          exact ⟨Ne.symm hc, ih List.mem_cons_self⟩
        · exact ih (List.mem_cons_of_mem _ h)

theorem splitOn_ne_nil (separator : Char) (text : List Char) : splitOn separator text ≠ [] := by
  cases text with
  | nil => exact List.cons_ne_nil _ _
  | cons c rest =>
    rw [splitOn]
    split
    · exact List.cons_ne_nil _ _
    · split <;> exact List.cons_ne_nil _ _

/-- Text without a separator has nothing before and after one, so it is no pair. -/
theorem splitOnce?_of_notMem (h : separator ∉ text) : splitOnce? separator text = none := by
  induction text with
  | nil => rfl
  | cons c rest ih =>
    rw [List.mem_cons, not_or] at h
    rw [splitOnce?, if_neg (Ne.symm h.1), ih h.2, Option.map_none]

/-- Text with a separator has something before and after the first one, though it may be
empty. -/
theorem splitOnce?_isSome_of_mem (h : separator ∈ text) :
    (splitOnce? separator text).isSome = true := by
  induction text with
  | nil => exact absurd h List.not_mem_nil
  | cons c rest ih =>
    rw [splitOnce?]
    split
    · rfl
    · rename_i hc
      rw [Option.isSome_map]
      exact ih ((List.mem_cons.mp h).resolve_left (Ne.symm hc))

/-- Text up to the first separator is what stands before it; later ones are part of what
stands after. -/
theorem splitOnce?_append (h : separator ∉ left) :
    splitOnce? separator (left ++ separator :: right) = some (left, right) := by
  induction left with
  | nil => rw [List.nil_append, splitOnce?, if_pos rfl]
  | cons c rest ih =>
    rw [List.mem_cons, not_or] at h
    rw [List.cons_append, splitOnce?, if_neg (Ne.symm h.1), ih h.2, Option.map_some]

/-- A character of joined text is a separator or one of a piece, and nothing else is put
in. -/
theorem mem_joinWith {c : Char} (h : c ∈ joinWith separator pieces) :
    c = separator ∨ ∃ piece ∈ pieces, c ∈ piece := by
  fun_induction joinWith separator pieces with
  | case1 => exact absurd h List.not_mem_nil
  | case2 piece => exact .inr ⟨piece, List.mem_cons_self, h⟩
  | case3 piece pieces _ ih =>
    rcases List.mem_append.mp h with h | h
    · exact .inr ⟨piece, List.mem_cons_self, h⟩
    · rcases List.mem_cons.mp h with h | h
      · exact .inl h
      · obtain rfl | ⟨p, hp, hc⟩ := ih h
        · exact .inl rfl
        · exact .inr ⟨p, List.mem_cons_of_mem _ hp, hc⟩

/-- Texts that begin with characters of different kinds differ, which is how a reader tells
one form from another. -/
theorem cons_ne_cons {kind : Char → Bool} {c d : Char} (hc : kind c = true) (hd : kind d = false)
    (rest more : List Char) : c :: rest ≠ d :: more := by
  intro h
  rw [(List.cons.inj h).1, hd] at hc
  cases hc

/-! ## Trimming -/

/-- Text that does not begin with a blank loses none there, and here it has none at all. -/
theorem dropWhile_isBlank_eq_self (h : ∀ c ∈ text, isBlank c = false) :
    text.dropWhile isBlank = text := by
  cases text with
  | nil => rfl
  | cons c rest =>
    rw [List.dropWhile_cons_of_neg]
    rw [h c List.mem_cons_self]
    exact Bool.false_ne_true

/-- Text without blanks is not trimmed, from either side. -/
theorem trim_eq_self (h : ∀ c ∈ text, isBlank c = false) : trim text = text := by
  rw [trim, dropWhile_isBlank_eq_self h, dropWhile_isBlank_eq_self, List.reverse_reverse]
  exact fun c hc => h c (List.mem_reverse.mp hc)

theorem trim_eq_rdropWhile (text : List Char) :
    trim text = (text.dropWhile isBlank).rdropWhile isBlank :=
  rfl

/-- From the right, blanks are dropped up to a character that is none, and what is left of it
stays. -/
theorem rdropWhile_append_cons {c : Char} (hc : isBlank c = false) (left right : List Char) :
    (left ++ c :: right).rdropWhile isBlank = left ++ c :: right.rdropWhile isBlank := by
  induction right using List.reverseRecOn with
  | nil =>
    rw [List.rdropWhile_concat_neg _ _ _ (by rw [hc]; exact Bool.false_ne_true),
      List.rdropWhile_nil]
  | append_singleton right d ih =>
    have hassoc : left ++ c :: (right ++ [d]) = (left ++ c :: right) ++ [d] := by
      rw [List.append_assoc, List.cons_append]
    rw [hassoc]
    by_cases hd : isBlank d = true
    · rw [List.rdropWhile_concat_pos _ _ _ hd, List.rdropWhile_concat_pos _ _ _ hd, ih]
    · rw [List.rdropWhile_concat_neg _ _ _ hd, List.rdropWhile_concat_neg _ _ _ hd, hassoc]

/-- Trimmed text is not trimmed again, as it neither begins nor ends with a blank. -/
theorem trim_trim (text : List Char) : trim (trim text) = trim text := by
  rw [trim_eq_rdropWhile text]
  cases hdrop : text.dropWhile isBlank with
  | nil => rfl
  | cons c rest =>
    have hc : isBlank c = false := by
      have hhead := List.head?_dropWhile_not isBlank text
      rw [hdrop] at hhead
      exact hhead
    -- the first character stays, so there is nothing to drop before it
    have hfirst : (c :: rest).rdropWhile isBlank = c :: rest.rdropWhile isBlank :=
      rdropWhile_append_cons hc [] rest
    rw [trim_eq_rdropWhile, hfirst,
      List.dropWhile_cons_of_neg (by rw [hc]; exact Bool.false_ne_true),
      ← hfirst, List.rdropWhile_idempotent]

end Compander.Text
