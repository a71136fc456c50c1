import Compander.Preset
import Compander.Proofs.Decimal.Spelling
import Compander.Proofs.Device.Queues
import Compander.Proofs.Parameters.Checks
import Compander.Proofs.Text.Pieces

/-!
# Option text read back

Parameters are written as items by name, lists in them as elements, and points as two numbers.
Each level has a separator of its own that no number contains, so that each is cut where it was
joined:

* `Parameters.Writable` — parameters that can be written: those that pass their check and have
  finite points;
* `readTimes_joinWith`, `readPoints_joinWith` — lists read back;
* `itemsOf_toText` — the items of the text are the options by name;
* `Parameters.ofText_toText` — the text of parameters that can be written is read as them.

Numbers come back because the shortest digits that stand for a double are read as it; nothing here
depends on which digits these are, only on the characters. The items are all named, so the text
does not depend on the order of the options either, and reading sets every one of them.
-/

namespace Compander

open Text

/-! ## Characters -/

/-- The characters of numbers. -/
def isNumeral (c : Char) : Bool :=
  c.isDigit || c = '-' || c = '.'

/-- What is printed with ink is no blank, so numbers and names are never trimmed. -/
theorem isBlank_of_printed {c : Char} (h : 33 ≤ c.toNat ∧ c.toNat ≤ 126) : isBlank c = false := by
  simp only [isBlank, Bool.or_eq_false_iff, Bool.and_eq_false_iff, decide_eq_false_iff_not,
    beq_eq_false_iff_ne]
  omega

theorem isBlank_of_isNumeral {c : Char} (h : isNumeral c = true) : isBlank c = false := by
  refine isBlank_of_printed ?_
  rw [isNumeral, Bool.or_eq_true, Bool.or_eq_true, decide_eq_true_eq, decide_eq_true_eq] at h
  obtain (h | rfl) | rfl := h
  · rw [Char.isDigit, Bool.and_eq_true, decide_eq_true_eq, decide_eq_true_eq] at h
    exact ⟨le_trans (by decide) (h.1 : 48 ≤ c.toNat), le_trans (h.2 : c.toNat ≤ 57) (by decide)⟩
  · decide
  · decide

section Text

variable {x : Float} {c : Char}

theorem isNumeral_of_mem_numberText (hx : x.isFinite = true) (hc : c ∈ Parameters.numberText x) :
    isNumeral c = true := by
  rw [isNumeral, Bool.or_eq_true, Bool.or_eq_true, decide_eq_true_eq, decide_eq_true_eq, or_assoc]
  exact (Decimal.plain_chars hx).2 c hc

/-- A character that no number contains is not in the text of one, and separators are such
characters. -/
theorem notMem_numberText (hx : x.isFinite = true) (hc : isNumeral c = false) :
    c ∉ Parameters.numberText x := by
  intro hmem
  rw [isNumeral_of_mem_numberText hx hmem] at hc
  cases hc

theorem trim_numberText (hx : x.isFinite = true) :
    trim (Parameters.numberText x) = Parameters.numberText x :=
  trim_eq_self fun _ hc => isBlank_of_isNumeral (isNumeral_of_mem_numberText hx hc)

end Text

/-! ## Values -/

/-- A number reads back as the double that it was written for, to the last bit, the sign of a
zero included. -/
theorem read?_numberText {x : Float} (hx : x.isFinite = true) :
    Decimal.read? (trim (Parameters.numberText x)) = some x := by
  rw [trim_numberText hx]
  exact Decimal.read?_plain hx

theorem readNumber_numberText (option : String) {x : Float} (hx : x.isFinite = true) :
    readNumber option (Parameters.numberText x) = .ok x := by
  rw [readNumber, read?_numberText hx]

theorem readTime_numberText (option : String) {seconds : Float}
    (h : Parameters.isTime seconds = true) :
    readTime option (Parameters.numberText seconds) = .ok seconds := by
  have hfinite : seconds.isFinite = true := (Bool.and_eq_true_iff.mp h).1
  rw [readTime, readNumber_numberText option hfinite]
  simp only [bind, Except.bind, h, if_true]
  rfl

/-- Texts that are read one by one as some values are read as the list of them. -/
theorem mapM_map_eq_ok {ε α β : Type} {write : α → β} {read : β → Except ε α} {values : List α}
    (h : ∀ x ∈ values, read (write x) = .ok x) : (values.map write).mapM read = .ok values := by
  induction values with
  | nil => rfl
  | cons x rest ih =>
    rw [List.map_cons, List.mapM_cons, h x List.mem_cons_self,
      ih fun y hy => h y (List.mem_cons_of_mem _ hy)]
    rfl

/-- The elements of a list are what was joined, if nothing in them is cut or trimmed. -/
theorem elements_joinWith {pieces : List (List Char)} (hne : pieces ≠ [])
    (hbar : ∀ piece ∈ pieces, '|' ∉ piece) (htrim : ∀ piece ∈ pieces, trim piece = piece) :
    elements (joinWith '|' pieces) = pieces := by
  rw [elements, splitOn_joinWith hne hbar, List.map_congr_left htrim, List.map_id']

/-- A list of durations reads back, as none of them is refused and none contains the
separator. -/
theorem readTimes_joinWith (option : String) {times : List Float} (hne : times ≠ [])
    (htimes : ∀ seconds ∈ times, Parameters.isTime seconds = true) :
    readTimes option (joinWith '|' (times.map Parameters.numberText)) = .ok times := by
  have hfinite : ∀ seconds ∈ times, seconds.isFinite = true := fun seconds h =>
    (Bool.and_eq_true_iff.mp (htimes seconds h)).1
  rw [readTimes, elements_joinWith (List.map_eq_nil_iff.not.mpr hne)]
  · exact mapM_map_eq_ok fun seconds h => readTime_numberText option (htimes seconds h)
  · exact List.forall_mem_map.mpr fun seconds h => notMem_numberText (hfinite seconds h) rfl
  · exact List.forall_mem_map.mpr fun seconds h => trim_numberText (hfinite seconds h)

section Points

variable {p : Point Float} {points : List (Point Float)}

theorem Point.isFinite_iff :
    p.isFinite = true ↔ p.input.isFinite = true ∧ p.output.isFinite = true :=
  Bool.and_eq_true_iff

theorem readPoint?_pointText (h : p.isFinite = true) :
    readPoint? (Parameters.pointText p) = some p := by
  obtain ⟨hinput, houtput⟩ := Point.isFinite_iff.mp h
  rw [readPoint?, Parameters.pointText, splitOnce?_append (notMem_numberText hinput rfl)]
  simp only [Option.bind_eq_bind, Option.bind_some, read?_numberText hinput,
    read?_numberText houtput]
  rw [if_pos h]
  rfl

/-- The characters of a point are those of its two numbers and the one between them. -/
theorem of_mem_pointText {c : Char} (h : p.isFinite = true) (hc : c ∈ Parameters.pointText p) :
    isNumeral c = true ∨ c = '/' := by
  obtain ⟨hinput, houtput⟩ := Point.isFinite_iff.mp h
  rcases List.mem_append.mp hc with hc | hc
  · exact .inl (isNumeral_of_mem_numberText hinput hc)
  · rcases List.mem_cons.mp hc with hc | hc
    · exact .inr hc
    · exact .inl (isNumeral_of_mem_numberText houtput hc)

/-- Points in order read back, after one that is not right of them, by induction on the
points. -/
theorem readPointsAfter_map {previous : Option Float} (hfinite : ∀ p ∈ points, p.isFinite = true)
    (horder : Point.InOrder points)
    (hprevious : ∀ x ∈ previous, ∀ p ∈ points.head?, ¬p.input < x) :
    readPointsAfter previous (points.map Parameters.pointText) = .ok points := by
  induction points generalizing previous with
  | nil => rfl
  | cons p rest ih =>
    obtain ⟨hhead, hrest⟩ := Point.inOrder_cons_iff.mp horder
    have hleft : previous.any (p.input < ·) = false := by
      cases previous with
      | none => rfl
      | some x => exact decide_eq_false (hprevious x rfl p rfl)
    rw [List.map_cons, readPointsAfter, readPoint?_pointText (hfinite p List.mem_cons_self)]
    simp only [hleft, Bool.false_eq_true, if_false]
    rw [ih (fun q hq => hfinite q (List.mem_cons_of_mem _ hq)) hrest]
    · rfl
    · rintro _ ⟨⟩
      exact hhead

/-- A list of points in order reads back, with the separator of points between them. -/
theorem readPoints_joinWith (hne : points ≠ []) (hfinite : ∀ p ∈ points, p.isFinite = true)
    (horder : Point.InOrder points) :
    readPoints (joinWith '|' (points.map Parameters.pointText)) = .ok points := by
  rw [readPoints, elements_joinWith (List.map_eq_nil_iff.not.mpr hne)]
  · exact readPointsAfter_map hfinite horder fun x hx => absurd hx (Option.not_mem_none x)
  · refine List.forall_mem_map.mpr fun p hp hbar => ?_
    rcases of_mem_pointText (hfinite p hp) hbar with h | h <;> cases h
  · refine List.forall_mem_map.mpr fun p hp => trim_eq_self fun c hc => ?_
    rcases of_mem_pointText (hfinite p hp) hc with h | rfl
    · exact isBlank_of_isNumeral h
    · rfl

end Points

/-! ## Items -/

/-- The option of a name is found by it, and no other option has the name. -/
theorem Setting.ofName?_name (s : Setting) : ofName? s.name = some s := by
  cases s <;> simp [ofName?, all, name]

/-- The names of options have neither separators nor blanks, so they are cut off where they
were put. -/
theorem Setting.of_mem_name (s : Setting) :
    ∀ c ∈ s.name.toList, c ≠ ':' ∧ c ≠ '=' ∧ isBlank c = false := by
  have hprinted : ∀ c ∈ s.name.toList, c ≠ ':' ∧ c ≠ '=' ∧ 33 ≤ c.toNat ∧ c.toNat ≤ 126 := by
    cases s <;> simp [name]
  intro c hc
  obtain ⟨hcolon, hequals, h⟩ := hprinted c hc
  exact ⟨hcolon, hequals, isBlank_of_printed h⟩

namespace Parameters

/-- Parameters that can be written as an option text. -/
structure Writable (p : Parameters) : Prop where
  /-- they are accepted -/
  accepted : p.Accepted
  /-- their points are finite -/
  points_isFinite : ∀ q ∈ p.points, q.isFinite = true

variable {p : Parameters}

namespace Writable

theorem attacks_isFinite (h : p.Writable) {x : Float} (hx : x ∈ p.attacks) : x.isFinite = true :=
  (Bool.and_eq_true_iff.mp (h.accepted.attacks_isTime x hx)).1

theorem decays_isFinite (h : p.Writable) {x : Float} (hx : x ∈ p.decays) : x.isFinite = true :=
  (Bool.and_eq_true_iff.mp (h.accepted.decays_isTime x hx)).1

theorem volume_isFinite (h : p.Writable) : p.volume.isFinite = true :=
  h.accepted.volume_within.isFinite (by decide +kernel) (by decide +kernel)

theorem delay_isFinite (h : p.Writable) : p.delay.isFinite = true :=
  h.accepted.delay_within.isFinite (by decide +kernel) (by decide +kernel)

/-- The characters of a value: those of numbers and the separators inside values. The
separators of items are not among them. -/
theorem of_mem_valueText (h : p.Writable) (s : Setting) {c : Char} (hc : c ∈ p.valueText s) :
    isNumeral c = true ∨ c = '/' ∨ c = '|' := by
  have htimes {times : List Float} (htimes : ∀ x ∈ times, x.isFinite = true)
      (hc : c ∈ joinWith '|' (times.map numberText)) : isNumeral c = true ∨ c = '/' ∨ c = '|' := by
    obtain rfl | ⟨piece, hpiece, hc⟩ := mem_joinWith hc
    · exact .inr (.inr rfl)
    · obtain ⟨x, hx, rfl⟩ := List.mem_map.mp hpiece
      exact .inl (isNumeral_of_mem_numberText (htimes x hx) hc)
  cases s with
  | attacks => exact htimes (fun x hx => h.attacks_isFinite hx) hc
  | decays => exact htimes (fun x hx => h.decays_isFinite hx) hc
  | points =>
    obtain rfl | ⟨piece, hpiece, hc⟩ := mem_joinWith hc
    · exact .inr (.inr rfl)
    · obtain ⟨q, hq, rfl⟩ := List.mem_map.mp hpiece
      exact (of_mem_pointText (h.points_isFinite q hq) hc).imp_right .inl
  | softKnee => exact .inl (isNumeral_of_mem_numberText h.accepted.softKnee_pos.1 hc)
  | gain => exact .inl (isNumeral_of_mem_numberText h.accepted.gain_isFinite hc)
  | volume => exact .inl (isNumeral_of_mem_numberText h.volume_isFinite hc)
  | delay => exact .inl (isNumeral_of_mem_numberText h.delay_isFinite hc)

end Writable

/-- The parameters with one option taken from others. -/
def take (q p : Parameters) : Setting → Parameters
  | .attacks => { q with attacks := p.attacks }
  | .decays => { q with decays := p.decays }
  | .points => { q with points := p.points }
  | .softKnee => { q with softKnee := p.softKnee }
  | .gain => { q with gain := p.gain }
  | .volume => { q with volume := p.volume }
  | .delay => { q with delay := p.delay }

/-- The value of an option reads back, whatever was set before and by whichever of its
names. -/
theorem setAs_valueText (h : p.Writable) (q : Parameters) (s : Setting) (name : String) :
    q.setAs s name (p.valueText s) = .ok (q.take p s) := by
  cases s with
  | attacks =>
    rw [setAs, valueText,
      readTimes_joinWith name h.accepted.attacks_ne_nil h.accepted.attacks_isTime]
    rfl
  | decays =>
    have hne : p.decays ≠ [] := by
      rw [← List.length_pos_iff, ← h.accepted.length_eq, List.length_pos_iff]
      exact h.accepted.attacks_ne_nil
    rw [setAs, valueText, readTimes_joinWith name hne h.accepted.decays_isTime]
    rfl
  | points =>
    rw [setAs, valueText,
      readPoints_joinWith h.accepted.points_ne_nil h.points_isFinite h.accepted.inOrder]
    rfl
  | softKnee =>
    rw [setAs, valueText, readNumber_numberText name h.accepted.softKnee_pos.1]
    rfl
  | gain =>
    rw [setAs, valueText, readNumber_numberText name h.accepted.gain_isFinite]
    rfl
  | volume =>
    rw [setAs, valueText, readNumber_numberText name h.volume_isFinite]
    rfl
  | delay =>
    rw [setAs, valueText, readNumber_numberText name h.delay_isFinite]
    rfl

/-- The item of an option as it is written. -/
def itemText (p : Parameters) (s : Setting) : List Char :=
  s.name.toList ++ '=' :: p.valueText s

/-- The characters of an item are neither separators of items nor blanks. -/
theorem of_mem_itemText (h : p.Writable) (s : Setting) {c : Char} (hc : c ∈ p.itemText s) :
    c ≠ ':' ∧ isBlank c = false := by
  rcases List.mem_append.mp hc with hc | hc
  · exact ⟨(s.of_mem_name c hc).1, (s.of_mem_name c hc).2.2⟩
  · rcases List.mem_cons.mp hc with rfl | hc
    · decide
    · obtain hnumeral | rfl | rfl := h.of_mem_valueText s hc
      · refine ⟨?_, isBlank_of_isNumeral hnumeral⟩
        rintro rfl
        cases hnumeral
      · decide
      · decide

/-- The items of the text are the options by name, in the order in which they are written. -/
theorem itemsOf_toText (h : p.Writable) :
    itemsOf p.toText.toList =
      Setting.all.map fun s => .named s.name.toList (p.valueText s) := by
  have hcut : splitOn ':' (joinWith ':' (Setting.all.map p.itemText)) =
      Setting.all.map p.itemText := by
    refine splitOn_joinWith (List.cons_ne_nil _ _) ?_
    exact List.forall_mem_map.mpr fun s _ hmem => (of_mem_itemText h s hmem).1 rfl
  have htrim : (Setting.all.map p.itemText).map trim = Setting.all.map p.itemText := by
    rw [List.map_congr_left (g := id), List.map_id]
    exact List.forall_mem_map.mpr fun s _ =>
      trim_eq_self fun c hc => (of_mem_itemText h s hc).2
  have hsome : (Setting.all.map p.itemText).filter (· ≠ []) = Setting.all.map p.itemText := by
    refine List.filter_eq_self.mpr (List.forall_mem_map.mpr fun s _ => ?_)
    simp [itemText]
  change itemsOf (String.ofList (joinWith ':' (Setting.all.map p.itemText))).toList = _
  rw [String.toList_ofList, itemsOf, hcut, htrim, hsome, List.map_map]
  refine List.map_congr_left fun s _ => ?_
  have hname : '=' ∉ s.name.toList := fun hmem => (s.of_mem_name _ hmem).2.1 rfl
  have htrimName : trim s.name.toList = s.name.toList :=
    trim_eq_self fun c hc => (s.of_mem_name c hc).2.2
  have htrimValue : trim (p.valueText s) = p.valueText s := by
    refine trim_eq_self fun c hc => (of_mem_itemText h s ?_).2
    exact List.mem_append_right _ (List.mem_cons_of_mem _ hc)
  simp only [Function.comp_apply, itemText, splitOnce?_append hname, htrimName, htrimValue]

/-- Items by name are set one after another, each to the value of the parameters that were
written. -/
theorem setItems_named (h : p.Writable) (q : Parameters) (free settings : List Setting) :
    q.setItems free (settings.map fun s => .named s.name.toList (p.valueText s)) =
      .ok (settings.foldl (·.take p) q) := by
  induction settings generalizing q with
  | nil => rfl
  | cons s rest ih =>
    rw [List.map_cons, setItems, set, String.ofList_toList, s.ofName?_name]
    simp only [setAs_valueText h]
    exact ih (q.take p s)

/-- The text of parameters that can be written is read as them, every option having been set
and every check being passed. -/
theorem ofText_of_writable (h : p.Writable) : ofText p.toText = .ok p := by
  have hcheck : p.check = .ok () := check_eq_ok_iff.mpr h.accepted
  have hall : Setting.all.foldl (·.take p) {} = p := by
    simp only [Setting.all, List.foldl_cons, List.foldl_nil, take]
  rw [ofText, itemsOf_toText h, setItems_named h, hall]
  simp only [bind, Except.bind, checked, hcheck]

/-- **Text and parameters.** Parameters that pass their check and have finite points are written
as an option text that is read as them, and so is a preset that holds this text. -/
theorem ofText_toText (hcheck : p.check = .ok ()) (hfinite : ∀ q ∈ p.points, q.isFinite = true) :
    ofText p.toText = .ok p ∧
      ∀ name : String, (Preset.ofParameters name p).parameters = .ok p := by
  have htext := ofText_of_writable ⟨check_eq_ok_iff.mp hcheck, hfinite⟩
  refine ⟨htext, fun name => ?_⟩
  -- the preset sets nothing of its own
  change (ofText p.toText >>= fun base => checked base) = .ok p
  rw [htext]
  simp only [bind, Except.bind, checked, hcheck]

/-- Two pairs of time constants, three points, a very large one and a negative zero among them. -/
theorem ofText_toText_of_two_pairs :
    let p : Parameters :=
      { attacks := [0.02, 1e300], decays := [0.3, -0.0]
        points := [⟨-1e30, -0.0⟩, ⟨-20.0, 5e-324⟩, ⟨0.0, -6.5⟩] }
    p.check = .ok () ∧ (∀ q ∈ p.points, q.isFinite = true) ∧ ofText p.toText = .ok p := by
  intro p
  have hcheck : p.check = .ok () := by
    refine Device.eq_ok_of_toOption ?_
    decide +kernel
  have hfinite : ∀ q ∈ p.points, q.isFinite = true := by decide +kernel
  exact ⟨hcheck, hfinite, (ofText_toText hcheck hfinite).1⟩

end Parameters

end Compander
