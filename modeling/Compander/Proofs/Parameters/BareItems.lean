import Compander.Proofs.Parameters.OptionText

/-!
# Bare items and names

A bare item of an option text stands for the option whose turn it is. Only bare items take turns,
so names can be put before them one after another, and the items then say the same:

* `itemOf?`, `itemsOf_eq` — the item in a piece of an option text, if it is not blank;
* `namePieces`, `Parameters.nameBare` — an option text with names before its bare items, as far as
  there are options for them;
* `Item.nameAll` — the same on items;
* `setItems_nameAll` — naming changes nothing, if there is an option for each bare item;
* `Parameters.ofText_nameBare` — option texts with names and without, one item too many included.

One bare item too many is refused. Names before the others do away with that: nothing has taken a
turn then, and the item goes to the first option (`not_ofText_nameBare`).
-/

namespace Compander

open Text

/-! ## Pieces of an option text -/

/-- The piece of an option text has an item without a name. -/
def isBarePiece (piece : List Char) : Bool :=
  trim piece ≠ [] ∧ '=' ∉ trim piece

/-- A piece of an option text with a name put before its item. -/
def withName (s : Setting) (piece : List Char) : List Char :=
  piece.takeWhile isBlank ++ s.name.toList ++ '=' :: piece.dropWhile isBlank

/-- The pieces of an option text with names put before the items without one, those of `free` in
order. -/
def namePieces : List Setting → List (List Char) → List (List Char)
  | [], pieces => pieces
  | _ :: _, [] => []
  | s :: free, piece :: rest =>
    if isBarePiece piece then withName s piece :: namePieces free rest
    else piece :: namePieces (s :: free) rest

/-- An option text with names put before its items without one, as far as there are options. -/
def Parameters.nameBare (text : String) : String :=
  String.ofList (joinWith ':' (namePieces Setting.all (splitOn ':' text.toList)))

/-- The item in a piece of an option text, if the piece is not blank. -/
def itemOf? (piece : List Char) : Option Item :=
  if trim piece = [] then none
  else
    match splitOnce? '=' (trim piece) with
    | some (name, value) => some (.named (trim name) (trim value))
    | none => some (.bare (trim piece))

/-- The items of an option text are those of its pieces, and a blank piece has none. -/
theorem itemsOf_eq (text : List Char) : itemsOf text = (splitOn ':' text).filterMap itemOf? := by
  rw [itemsOf]
  induction splitOn ':' text with
  | nil => rfl
  | cons piece rest ih =>
    rw [List.map_cons, List.filterMap_cons, ← ih, itemOf?]
    by_cases h : trim piece = []
    · simp [h]
    · rw [List.filter_cons_of_pos (by simpa using h), List.map_cons, if_neg h]
      cases splitOnce? '=' (trim piece) <;> rfl

section Pieces

variable {piece : List Char} {s : Setting}

theorem isBarePiece_iff : isBarePiece piece = true ↔ trim piece ≠ [] ∧ '=' ∉ trim piece := by
  rw [isBarePiece, decide_eq_true_iff]

theorem itemOf?_of_isBarePiece (h : isBarePiece piece = true) :
    itemOf? piece = some (.bare (trim piece)) := by
  obtain ⟨hne, hequals⟩ := isBarePiece_iff.mp h
  rw [itemOf?, if_neg hne, splitOnce?_of_notMem hequals]

/-- A piece without a bare item is blank or has an item with a name. -/
theorem itemOf?_cases (h : ¬isBarePiece piece = true) :
    itemOf? piece = none ∨ ∃ name value, itemOf? piece = some (.named name value) := by
  rw [itemOf?]
  split
  · exact .inl rfl
  · rename_i hne
    have hequals : '=' ∈ trim piece := by
      by_contra hequals
      exact h (isBarePiece_iff.mpr ⟨hne, hequals⟩)
    obtain ⟨⟨name, value⟩, hcut⟩ := Option.isSome_iff_exists.mp (splitOnce?_isSome_of_mem hequals)
    rw [hcut]
    exact .inr ⟨trim name, trim value, rfl⟩

/-- Blanks before the item stay before the name, so that they are trimmed as before. -/
theorem trim_withName (s : Setting) (piece : List Char) :
    trim (withName s piece) = s.name.toList ++ '=' :: trim piece := by
  have hblank : ∀ c ∈ piece.takeWhile isBlank, isBlank c = true := fun _ =>
    List.mem_takeWhile_imp
  have hname : (s.name.toList ++ '=' :: piece.dropWhile isBlank).dropWhile isBlank =
      s.name.toList ++ '=' :: piece.dropWhile isBlank := by
    cases s <;> rfl
  rw [trim_eq_rdropWhile, withName, List.append_assoc, List.dropWhile_append_of_pos hblank, hname,
    rdropWhile_append_cons (by decide)]
  rfl

/-- A name before the item of a piece is the name of the item, whatever blanks stand around
it. -/
theorem itemOf?_withName (s : Setting) (piece : List Char) :
    itemOf? (withName s piece) = some (.named s.name.toList (trim piece)) := by
  have hne : s.name.toList ++ '=' :: trim piece ≠ [] :=
    List.append_ne_nil_of_right_ne_nil _ (List.cons_ne_nil _ _)
  have hequals : '=' ∉ s.name.toList := fun hmem => (s.of_mem_name _ hmem).2.1 rfl
  have htrim : trim s.name.toList = s.name.toList :=
    trim_eq_self fun c hc => (s.of_mem_name c hc).2.2
  rw [itemOf?, trim_withName, if_neg hne, splitOnce?_append hequals]
  simp only [htrim, trim_trim]

theorem notMem_withName (h : ':' ∉ piece) : ':' ∉ withName s piece := by
  intro hmem
  rcases List.mem_append.mp hmem with hmem | hmem
  · rcases List.mem_append.mp hmem with hmem | hmem
    · exact h (List.takeWhile_subset _ hmem)
    · exact (s.of_mem_name _ hmem).1 rfl
  · rcases List.mem_cons.mp hmem with hmem | hmem
    · cases hmem
    · exact h (List.dropWhile_subset _ hmem)

theorem notMem_of_mem_namePieces {free : List Setting} {pieces : List (List Char)}
    (h : ∀ piece ∈ pieces, ':' ∉ piece) : ∀ piece ∈ namePieces free pieces, ':' ∉ piece := by
  induction pieces generalizing free with
  | nil =>
    cases free <;> exact h
  | cons first rest ih =>
    have hrest : ∀ piece ∈ rest, ':' ∉ piece := fun piece hpiece =>
      h piece (List.mem_cons_of_mem _ hpiece)
    cases free with
    | nil => exact h
    | cons s free =>
      rw [namePieces]
      split
      · exact List.forall_mem_cons.mpr
          ⟨notMem_withName (h first List.mem_cons_self), ih hrest⟩
      · exact List.forall_mem_cons.mpr ⟨h first List.mem_cons_self, ih hrest⟩

theorem namePieces_ne_nil {free : List Setting} {pieces : List (List Char)} (h : pieces ≠ []) :
    namePieces free pieces ≠ [] := by
  cases pieces with
  | nil => exact absurd rfl h
  | cons first rest =>
    cases free with
    | nil => exact h
    | cons s free =>
      rw [namePieces]
      split <;> exact List.cons_ne_nil _ _

end Pieces

/-! ## Items -/

namespace Item

/-- The item has no name. -/
def isBare : Item → Bool
  | named _ _ => false
  | bare _ => true

/-- Items with names put before the bare ones, those of `free` in order. -/
def nameAll : List Setting → List Item → List Item
  | [], items => items
  | _ :: _, [] => []
  | s :: free, bare value :: rest => named s.name.toList value :: nameAll free rest
  | s :: free, named name value :: rest => named name value :: nameAll (s :: free) rest

variable {free : List Setting} {items before rest : List Item}

theorem countP_named (name value : List Char) (rest : List Item) :
    (named name value :: rest).countP isBare = rest.countP isBare :=
  List.countP_cons_of_neg Bool.false_ne_true

theorem countP_bare (value : List Char) (rest : List Item) :
    (bare value :: rest).countP isBare = rest.countP isBare + 1 :=
  List.countP_cons_of_pos rfl

/-- Where each bare item has a name, none is left, so no item takes a turn. -/
theorem countP_nameAll (h : items.countP isBare ≤ free.length) :
    (nameAll free items).countP isBare = 0 := by
  induction items generalizing free with
  | nil => cases free <;> rfl
  | cons item rest ih =>
    cases item with
    | named name value =>
      rw [countP_named] at h
      cases free with
      | nil => exact (countP_named _ _ _).trans (Nat.le_zero.mp h)
      | cons s free => exact (countP_named _ _ _).trans (ih h)
    | bare value =>
      rw [countP_bare] at h
      cases free with
      | nil => exact absurd h (Nat.not_succ_le_zero _)
      | cons s free => exact (countP_named _ _ _).trans (ih (Nat.le_of_succ_le_succ h))

/-- Names are put before bare items up to where there are no more options, and what follows
stays as it is. -/
theorem nameAll_append (h : before.countP isBare = free.length) (rest : List Item) :
    nameAll free (before ++ rest) = nameAll free before ++ rest := by
  induction before generalizing free with
  | nil =>
    obtain rfl : free = [] := List.eq_nil_of_length_eq_zero h.symm
    rw [nameAll, nameAll]
  | cons item before ih =>
    cases item with
    | named name value =>
      rw [countP_named] at h
      cases free with
      | nil => rw [nameAll, nameAll]
      | cons s free => rw [List.cons_append, nameAll, nameAll, ih h, List.cons_append]
    | bare value =>
      rw [countP_bare] at h
      cases free with
      | nil => exact absurd h (Nat.succ_ne_zero _)
      | cons s free =>
        rw [List.cons_append, nameAll, nameAll, ih (Nat.succ.inj h), List.cons_append]

end Item

/-- Names before the items of some pieces are names of the items; blank pieces take no
name. -/
theorem filterMap_namePieces (free : List Setting) (pieces : List (List Char)) :
    (namePieces free pieces).filterMap itemOf? = Item.nameAll free (pieces.filterMap itemOf?) := by
  induction pieces generalizing free with
  | nil => cases free <;> rfl
  | cons piece rest ih =>
    cases free with
    | nil => rw [namePieces, Item.nameAll]
    | cons s free =>
      rw [namePieces]
      split
      · rename_i hbare
        rw [List.filterMap_cons_some (itemOf?_withName s piece),
          List.filterMap_cons_some (itemOf?_of_isBarePiece hbare), ih, Item.nameAll]
      · rename_i hbare
        obtain hblank | ⟨name, value, hitem⟩ := itemOf?_cases hbare
        · rw [List.filterMap_cons_none hblank, List.filterMap_cons_none hblank, ih]
        · rw [List.filterMap_cons_some hitem, List.filterMap_cons_some hitem, ih, Item.nameAll]

namespace Parameters

theorem itemsOf_nameBare (text : String) :
    itemsOf (nameBare text).toList = Item.nameAll Setting.all (itemsOf text.toList) := by
  have hcut : splitOn ':' (nameBare text).toList =
      namePieces Setting.all (splitOn ':' text.toList) := by
    rw [nameBare, String.toList_ofList]
    exact splitOn_joinWith (namePieces_ne_nil (splitOn_ne_nil ':' _))
      (notMem_of_mem_namePieces fun _ => notMem_of_mem_splitOn)
  rw [itemsOf_eq, hcut, filterMap_namePieces, itemsOf_eq]

/-! ## Setting items -/

variable {p : Parameters} {free : List Setting} {items before rest : List Item}

/-- Items are set one after another; bare ones take the options that are left. If the first
items meet an error the rest is not looked at. -/
theorem setItems_append (h : before.countP Item.isBare ≤ free.length) (p : Parameters)
    (rest : List Item) :
    p.setItems free (before ++ rest) =
      p.setItems free before >>= fun q =>
        q.setItems (free.drop (before.countP Item.isBare)) rest := by
  induction before generalizing p free with
  | nil => rw [List.nil_append, setItems]; rfl
  | cons item before ih =>
    cases item with
    | named name value =>
      rw [Item.countP_named] at h ⊢
      rw [List.cons_append, setItems, setItems]
      cases p.set (String.ofList name) value with
      | error error => rfl
      | ok q => exact ih h q
    | bare value =>
      rw [Item.countP_bare] at h ⊢
      cases free with
      | nil => exact absurd h (Nat.not_succ_le_zero _)
      | cons s free =>
        rw [List.cons_append, setItems, setItems]
        cases p.setAs s s.name value with
        | error error => rfl
        | ok q => exact ih (Nat.le_of_succ_le_succ h) q

/-- Items that all have names do not care whose turn it is, and neither do they take one. -/
theorem setItems_of_named (h : items.countP Item.isBare = 0) (p : Parameters)
    (free other : List Setting) : p.setItems free items = p.setItems other items := by
  induction items generalizing p with
  | nil => rw [setItems, setItems]
  | cons item rest ih =>
    cases item with
    | named name value =>
      rw [Item.countP_named] at h
      rw [setItems, setItems]
      congr 1
      funext q
      exact ih h q
    | bare value =>
      rw [Item.countP_bare] at h
      exact absurd h (Nat.succ_ne_zero _)

/-- Naming changes nothing if there is an option for each bare item, whatever options are left to
turn to afterwards. -/
theorem setItems_nameAll (h : items.countP Item.isBare ≤ free.length) (p : Parameters)
    (other : List Setting) :
    p.setItems other (Item.nameAll free items) = p.setItems free items := by
  induction items generalizing p free with
  | nil => cases free <;> rw [Item.nameAll, setItems, setItems]
  | cons item rest ih =>
    cases free with
    | nil =>
      rw [Item.nameAll]
      exact setItems_of_named (Nat.le_zero.mp h) p other []
    | cons s free =>
      cases item with
      | named name value =>
        rw [Item.countP_named] at h
        rw [Item.nameAll, setItems, setItems]
        congr 1
        funext q
        exact ih h q
      | bare value =>
        rw [Item.countP_bare] at h
        rw [Item.nameAll, setItems, setItems, set, String.ofList_toList, s.ofName?_name]
        congr 1
        funext q
        exact ih (Nat.le_of_succ_le_succ h) q

/-- Where the bare items before one have used up the options, it is refused, unless one of them
fails. -/
theorem setItems_of_full (h : before.countP Item.isBare = free.length) (p : Parameters)
    (value : List Char) (rest : List Item) :
    p.setItems free (before ++ .bare value :: rest) =
      p.setItems free before >>= fun _ => .error (.unknown (String.ofList value)) := by
  rw [setItems_append h.le, h, List.drop_length]
  rfl

/-- With names before them, the bare items before one take no turns, and it goes to the first
option. -/
theorem setItems_nameAll_of_full (h : before.countP Item.isBare = free.length) (p : Parameters)
    (other : List Setting) (value : List Char) (rest : List Item) :
    p.setItems other (Item.nameAll free (before ++ .bare value :: rest)) =
      p.setItems free before >>= fun q => q.setItems other (.bare value :: rest) := by
  have hcount := Item.countP_nameAll h.le
  rw [Item.nameAll_append h, setItems_append (hcount.trans_le (Nat.zero_le _)), hcount,
    List.drop_zero, setItems_nameAll h.le]

/-- **Names for bare items.** If there are not more bare items in an option text than options,
names can be put before them, those of the options in order, and the text is read as before, to
parameters or to an error. If there are more, and an item before the first one too many fails, that
still holds. If none fails, that one is refused whatever follows; and with names before the others
it goes to the first option again. -/
theorem ofText_nameBare (text : String) :
    ((itemsOf text.toList).countP Item.isBare ≤ 7 → ofText (nameBare text) = ofText text) ∧
    ∀ (before : List Item) (value : List Char) (rest : List Item),
      itemsOf text.toList = before ++ .bare value :: rest → before.countP Item.isBare = 7 →
        (∀ error, ({} : Parameters).setItems Setting.all before = .error error →
          ofText (nameBare text) = ofText text) ∧
        ∀ p, ({} : Parameters).setItems Setting.all before = .ok p →
          ofText text = .error (.unknown (String.ofList value)) ∧
          ofText (nameBare text) = p.setItems Setting.all (.bare value :: rest) >>= checked := by
  refine ⟨fun hcount => ?_, fun before value rest hitems hcount => ?_⟩
  · rw [ofText, ofText, itemsOf_nameBare, setItems_nameAll hcount]
  · -- what the text means, with names and without, after the items before the last
    have htext : ofText text = ({} : Parameters).setItems Setting.all before >>= fun _ =>
        .error (.unknown (String.ofList value)) := by
      rw [ofText, hitems, setItems_of_full hcount]
      cases ({} : Parameters).setItems Setting.all before <;> rfl
    have hnamed : ofText (nameBare text) = ({} : Parameters).setItems Setting.all before >>=
        fun p => p.setItems Setting.all (.bare value :: rest) >>= checked := by
      rw [ofText, itemsOf_nameBare, hitems, setItems_nameAll_of_full hcount]
      cases ({} : Parameters).setItems Setting.all before <;> rfl
    refine ⟨fun error herror => ?_, fun p hp => ?_⟩
    · rw [htext, hnamed, herror]
      rfl
    · rw [htext, hnamed, hp]
      exact ⟨rfl, rfl⟩

/-- Seven bare items with others between them, where naming changes nothing, and an eighth
with more after it, which is refused. -/
theorem ofText_nameBare_of_eighth :
    let text := ".3 : .8:gain=2:-70/-70::6:0:-90: 0.2"
    let longer := ".3:.8:gain=2:-70/-70:6:0:-90:0.2:1:loud=2"
    ((itemsOf text.toList).countP Item.isBare ≤ 7 ∧ ofText (nameBare text) = ofText text) ∧
      ∃ before value rest p, itemsOf longer.toList = before ++ .bare value :: rest ∧
        before.countP Item.isBare = 7 ∧ ({} : Parameters).setItems Setting.all before = .ok p ∧
        ofText longer = .error (.unknown (String.ofList value)) := by
  intro text longer
  have hcount : (itemsOf text.toList).countP Item.isBare ≤ 7 := by decide +kernel
  let before := (itemsOf longer.toList).take 8
  have hitems : itemsOf longer.toList =
      before ++ .bare "1".toList :: [.named "loud".toList "2".toList] := by decide +kernel
  have hfull : before.countP Item.isBare = 7 := by decide +kernel
  obtain ⟨p, hp⟩ : ∃ p, (({} : Parameters).setItems Setting.all before).toOption = some p :=
    Option.isSome_iff_exists.mp (by decide +kernel)
  have hp := Device.eq_ok_of_toOption hp
  exact ⟨⟨hcount, (ofText_nameBare text).1 hcount⟩, before, _, _, p, hitems, hfull, hp,
    (((ofText_nameBare longer).2 _ _ _ hitems hfull).2 p hp).1⟩

/-- Names do change what some texts mean: an eighth bare item is refused, but where the first seven
have names it is another attack time. -/
theorem not_ofText_nameBare : ¬∀ text : String, ofText (nameBare text) = ofText text := by
  intro h
  let text := ".3:.8:-70/-70:6:0:-90:0.2:1"
  have hnamed : nameBare text =
      "attacks=.3:decays=.8:points=-70/-70:soft-knee=6:gain=0:volume=-90:delay=0.2:1" := by
    decide +kernel
  have hread : (ofText (nameBare text)).toOption.isSome = true := by
    rw [hnamed]
    decide +kernel
  have hrefused : (ofText text).toOption.isSome = false := by decide +kernel
  rw [h text, hrefused] at hread
  cases hread

end Parameters

end Compander
