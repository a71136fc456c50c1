import Mathlib.Data.List.Nodup
import Compander.Preset.Library
import Compander.Proofs.Toml.Lines

/-!
# Presets read back

A preset is a document of lines, one for each field that is set, and is read back from it:

* `Toml.Entries.ofFields` — of some keys with values or without, the table of those with values;
* `Preset.fields`, `Preset.toDocument_eq` — the keys of a preset with their values, and that
  the document has a line for each that is set;
* `Preset.ofEntries?_fields` — the table of these is read as the preset;
* `Preset.ofDocument_toDocument` — so the document is read as the preset.

A field that is not set has no line, and a key that is missing leaves its field unset; so nothing
has to be said about which fields are set. The keys are different from each other, which is what
makes their lines a table. The rest is about single values: text comes back from whatever
quotation was chosen for it, and a number comes back as the double that it was.
-/

namespace Compander

open Toml

/-! ## Keys that may have values -/

namespace Toml.Entries

variable {fields : List (String × Option Value)} {key : String} {value : Option Value}

/-- Of some keys with values or without, those with values. -/
def ofFields (fields : List (String × Option Value)) : Entries :=
  fields.filterMap fun field => field.2.map fun value => (field.1, value)

theorem ofFields_cons (key : String) (value : Option Value)
    (fields : List (String × Option Value)) :
    ofFields ((key, value) :: fields) =
      (value.map fun value => (key, value)).toList ++ ofFields fields := by
  cases value <;> rfl

/-- The keys of the table are among the keys, in the same order, so they are different if
those are. -/
theorem keys_ofFields_sublist (fields : List (String × Option Value)) :
    ((ofFields fields).map Prod.fst).Sublist (fields.map Prod.fst) := by
  induction fields with
  | nil => exact List.Sublist.refl _
  | cons field fields ih =>
    obtain ⟨key, value | value⟩ := field
    · exact ih.cons key
    · exact ih.cons_cons key

/-- The table has the values of the keys, and none for a key without one. -/
theorem find?_ofFields (hkeys : (fields.map Prod.fst).Nodup) (h : (key, value) ∈ fields) :
    (ofFields fields).find? key = value := by
  induction fields with
  | nil => cases h
  | cons field fields ih =>
    rw [List.map_cons, List.nodup_cons] at hkeys
    rcases List.mem_cons.mp h with rfl | h
    · cases value with
      | none => exact find?_eq_none fun hmem => hkeys.1 ((keys_ofFields_sublist fields).mem hmem)
      | some value => simp [ofFields_cons, find?]
    · have hne : key ≠ field.1 := by
        intro heq
        rw [← heq] at hkeys
        exact hkeys.1 (List.mem_map.mpr ⟨_, h, rfl⟩)
      have hfind := ih hkeys.2 h
      obtain ⟨other, value' | value'⟩ := field
      · exact hfind
      · rw [ofFields_cons, find?]
        simp only [Option.map_some, Option.toList_some, List.singleton_append]
        rw [List.lookup_cons, beq_eq_false_iff_ne.mpr hne]
        exact hfind

/-- Lines for the keys with values, and nothing for the others, which is how a document is
written field by field. -/
theorem flatMap_ofFields {α : Type} (write : String × Value → List α)
    (fields : List (String × Option Value)) :
    (ofFields fields).flatMap write =
      fields.flatMap fun field => (field.2.map fun value => write (field.1, value)).getD [] := by
  induction fields with
  | nil => rfl
  | cons field fields ih =>
    obtain ⟨key, value | value⟩ := field
    · rw [List.flatMap_cons, ← ih]
      rfl
    · rw [List.flatMap_cons, ← ih]
      rfl

end Toml.Entries

namespace Preset

variable {preset : Preset} {key : String}

/-! ## Writing -/

/-- The keys of a preset, and the values of those that are set. -/
def fields (preset : Preset) : List (String × Option Value) :=
  [("name", some (.text preset.name)), ("description", preset.description.map .text),
    ("options", some (.text preset.options)), ("attacks", preset.attacks.map .text),
    ("decays", preset.decays.map .text), ("points", preset.points.map .text),
    ("soft_knee", preset.softKnee.map .float), ("gain", preset.gain.map .float),
    ("volume", preset.volume.map .float), ("delay", preset.delay.map .float)]

/-- The text of a value. -/
def valueText : Value → List Char
  | .text text => Quoted.quote text.toList
  | .float x => (Decimal.Spelling.document.ofDouble x).toList
  | _ => []

theorem nodup_keys (preset : Preset) : (preset.fields.map Prod.fst).Nodup := by
  simp [fields]

theorem isKey_of_mem {field : String × Option Value} (h : field ∈ preset.fields) :
    Reader.IsKey field.1 := by
  have hkey : ∀ key ∈ preset.fields.map Prod.fst,
      key.toList ≠ [] ∧ ∀ c ∈ key.toList, Reader.isBare c = true := by
    simp [fields, Reader.isBare]
  exact ⟨(hkey _ (List.mem_map_of_mem h)).1, (hkey _ (List.mem_map_of_mem h)).2⟩

/-- A value is written as a text that is read as it, if it is not a number that is none. -/
theorem isWritten_of_mem {value : Value}
    (hnumber : ∀ x, preset.softKnee = some x ∨ preset.gain = some x ∨ preset.volume = some x ∨
      preset.delay = some x → x.isNaN = false)
    (h : (key, some value) ∈ preset.fields) : Reader.IsWritten (valueText value) value := by
  cases value with
  | text text => exact Reader.isWritten_quote text
  | float x =>
    have hfield : key = "soft_knee" ∧ preset.softKnee = some x ∨
        key = "gain" ∧ preset.gain = some x ∨ key = "volume" ∧ preset.volume = some x ∨
          key = "delay" ∧ preset.delay = some x := by
      simpa [fields] using h
    refine Reader.isWritten_number (hnumber x ?_)
    exact hfield.imp And.right (Or.imp And.right (Or.imp And.right And.right))
  | integer | boolean | moment | array | table | tables => simp [fields] at h

/-- The document has a line for each key that is set, in the order of the fields. -/
theorem toDocument_eq (preset : Preset) :
    preset.toDocument = String.ofList
      ((Entries.ofFields preset.fields).flatMap fun e => line e.1 (valueText e.2)) := by
  rw [Entries.flatMap_ofFields, toDocument]
  simp only [fields, List.flatMap_cons, List.flatMap_nil, List.append_nil, Option.map_map,
    Option.map_some, Option.getD_some, List.append_assoc]
  rfl

/-! ## Reading -/

theorem field?_of_find? {α : Type} {as : Value → Option α} (put : α → Value)
    (has : ∀ a, as (put a) = some a) {entries : Entries} {a : Option α}
    (h : entries.find? key = a.map put) : field? as entries key = some a := by
  rw [field?, h]
  cases a with
  | none => rfl
  | some a => simp [has]

theorem field?_text {a : Option String} (h : (key, a.map Value.text) ∈ preset.fields) :
    field? asText? (Entries.ofFields preset.fields) key = some a :=
  field?_of_find? Value.text (fun _ => rfl) (Entries.find?_ofFields preset.nodup_keys h)

theorem field?_number {a : Option Float} (h : (key, a.map Value.float) ∈ preset.fields) :
    field? asNumber? (Entries.ofFields preset.fields) key = some a :=
  field?_of_find? Value.float (fun _ => rfl) (Entries.find?_ofFields preset.nodup_keys h)

/-- The table of the fields is read as the preset: each value is of its kind, and a missing
key leaves its field unset. -/
theorem ofEntries?_fields (preset : Preset) :
    ofEntries? (Entries.ofFields preset.fields) = some preset := by
  have hname : field? asText? (Entries.ofFields preset.fields) "name" = some (some preset.name) :=
    field?_text (by simp [fields])
  have hoptions : field? asText? (Entries.ofFields preset.fields) "options" =
      some (some preset.options) := field?_text (by simp [fields])
  rw [ofEntries?, hname, hoptions, field?_text (a := preset.description) (by simp [fields]),
    field?_text (a := preset.attacks) (by simp [fields]),
    field?_text (a := preset.decays) (by simp [fields]),
    field?_text (a := preset.points) (by simp [fields]),
    field?_number (a := preset.softKnee) (by simp [fields]),
    field?_number (a := preset.gain) (by simp [fields]),
    field?_number (a := preset.volume) (by simp [fields]),
    field?_number (a := preset.delay) (by simp [fields])]
  rfl

/-- **Documents.** A preset whose numbers are numbers is written as a document that is read as the
preset. -/
theorem ofDocument_toDocument
    (h : ∀ x, preset.softKnee = some x ∨ preset.gain = some x ∨ preset.volume = some x ∨
      preset.delay = some x → x.isNaN = false) :
    ofDocument preset.toDocument = .ok preset := by
  have hread : Toml.read? ((Entries.ofFields preset.fields).flatMap fun e =>
      line e.1 (valueText e.2)) = some (Entries.ofFields preset.fields) := by
    refine read?_lines ?_ ((Entries.keys_ofFields_sublist _).nodup preset.nodup_keys)
    intro e he
    obtain ⟨⟨key, value⟩, hfield, hvalue⟩ := List.mem_filterMap.mp he
    obtain ⟨value, rfl, rfl⟩ := Option.map_eq_some_iff.mp hvalue
    exact ⟨isKey_of_mem hfield, isWritten_of_mem h hfield⟩
  rw [ofDocument, ofDocument?, toDocument_eq, String.toList_ofList, hread]
  simp only [Option.bind_eq_bind, Option.bind_some, ofEntries?_fields]

/-- A preset whose texts have marks of both kinds, line feeds and control characters, and one of
whose numbers is infinite. -/
theorem ofDocument_toDocument_of_marks :
    let preset : Preset :=
      { name := "\n\"\"\" and ''' \\", description := some "\"\"\"\"\r\n\x01"
        options := "gain=3\t", attacks := some "''", points := some "-60/-60|0/-6"
        gain := some (-0.0), volume := some (-1.0 / 0.0) }
    (∀ x, preset.softKnee = some x ∨ preset.gain = some x ∨ preset.volume = some x ∨
      preset.delay = some x → x.isNaN = false) ∧ ofDocument preset.toDocument = .ok preset := by
  intro preset
  have hnumber : ∀ x, preset.softKnee = some x ∨ preset.gain = some x ∨ preset.volume = some x ∨
      preset.delay = some x → x.isNaN = false := by
    rintro x (h | h | h | h) <;> cases h <;> decide +kernel
  exact ⟨hnumber, ofDocument_toDocument hnumber⟩

end Preset

end Compander
