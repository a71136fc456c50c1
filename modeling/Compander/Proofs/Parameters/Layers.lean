import Mathlib.Data.List.Infix
import Compander.Command.Running
import Compander.Files.Folder
import Compander.Proofs.Parameters.LastValues

/-!
# Layers of parameters

Parameters are resolved from layers that are put one on another: an option text, the values that a
preset sets above it, and those that a command line sets above both. Each layer reads on its own,
whatever it is put on. But parameters are checked after each layer, not only after the last:

* `Layer`, `Parameters.put` — a layer, and parameters with a layer on them;
* `Layer.merge`, `Layer.settle` — layers put together, without the checks and with them;
* `Layer.settle_eq_ok_iff` — layers resolve if the parameters pass their check after each;
* `Preset.layers`, `Base.layers` — presets and selections resolve through their layers.

So a layer cannot make good what one below it has left unfit, and layers that go together may be
refused all the same: two attacks and two decays are accepted in one layer, and not in two. Where
every check is passed, the outcome is the same as if only the last one were made.
-/

namespace Compander

open Command (Run Trouble)
open Command.Run

/-- What is put on parameters at once. -/
inductive Layer where
  /-- an option text -/
  | line (text : String)
  /-- the values that a preset sets above its option text -/
  | own (preset : Preset)
  /-- the texts of options that are set on their own -/
  | values (overrides : List (Setting × Option String))

namespace Parameters

/-- The parameters with a layer on them. -/
def put (p : Parameters) : Layer → Except OptionError Parameters
  | .line text => p.setItems Setting.all (itemsOf text.toList)
  | .own preset => (p.setEach preset.texts).map preset.setNumbers
  | .values overrides => p.setEach overrides

/-! ## Reading without looking below -/

variable {p q : Parameters}

/-- Whether an option can be set does not depend on the other options, as its text alone is
read. -/
theorem exists_setAs (p : Parameters) {s : Setting} {name : String} {value : List Char}
    (h : ∃ r, q.setAs s name value = .ok r) : ∃ r, p.setAs s name value = .ok r := by
  obtain ⟨r, hr⟩ := h
  rw [setAs_eq_map_read] at hr
  cases hread : s.read name value with
  | error error =>
    rw [hread] at hr
    cases hr
  | ok v => exact ⟨p.withValue s v, by rw [setAs_eq_map_read, hread]; rfl⟩

theorem exists_set (p : Parameters) {name : String} {value : List Char}
    (h : ∃ r, q.set name value = .ok r) : ∃ r, p.set name value = .ok r :=
  (exists_set_iff p (name, value)).mpr ((exists_set_iff q (name, value)).mp h)

theorem exists_setItems (p : Parameters) {free : List Setting} {items : List Item}
    (h : ∃ r, q.setItems free items = .ok r) : ∃ r, p.setItems free items = .ok r := by
  induction items generalizing p q free with
  | nil => exact ⟨p, by rw [setItems]⟩
  | cons item rest ih =>
    obtain ⟨r, hr⟩ := h
    cases item with
    | named name value =>
      rw [setItems, bind_eq_ok_iff] at hr
      obtain ⟨q', hq', hrest⟩ := hr
      obtain ⟨p', hp'⟩ := exists_set p ⟨q', hq'⟩
      obtain ⟨r', hr'⟩ := ih p' ⟨r, hrest⟩
      exact ⟨r', by rw [setItems, bind_eq_ok_iff]; exact ⟨p', hp', hr'⟩⟩
    | bare value =>
      cases free with
      | nil => cases hr
      | cons s free =>
        rw [setItems, bind_eq_ok_iff] at hr
        obtain ⟨q', hq', hrest⟩ := hr
        obtain ⟨p', hp'⟩ := exists_setAs p ⟨q', hq'⟩
        obtain ⟨r', hr'⟩ := ih p' ⟨r, hrest⟩
        exact ⟨r', by rw [setItems, bind_eq_ok_iff]; exact ⟨p', hp', hr'⟩⟩

theorem exists_setEach (p : Parameters) {overrides : List (Setting × Option String)}
    (h : ∃ r, q.setEach overrides = .ok r) : ∃ r, p.setEach overrides = .ok r := by
  induction overrides generalizing p q with
  | nil => exact ⟨p, rfl⟩
  | cons override rest ih =>
    obtain ⟨s, text | text⟩ := override
    · exact ih p h
    · obtain ⟨r, hr⟩ := h
      rw [setEach, bind_eq_ok_iff] at hr
      obtain ⟨q', hq', hrest⟩ := hr
      obtain ⟨p', hp'⟩ := exists_setAs p ⟨q', hq'⟩
      obtain ⟨r', hr'⟩ := ih p' ⟨r, hrest⟩
      exact ⟨r', by rw [setEach, bind_eq_ok_iff]; exact ⟨p', hp', hr'⟩⟩

/-- A layer that reads on some parameters reads on others, though its outcome may then be
refused. -/
theorem exists_put (p : Parameters) {q : Parameters} {layer : Layer}
    (h : ∃ r, q.put layer = .ok r) :
    ∃ r, p.put layer = .ok r := by
  cases layer with
  | line text => exact exists_setItems p h
  | values overrides => exact exists_setEach p h
  | own preset =>
    obtain ⟨r, hr⟩ := h
    cases hset : q.setEach preset.texts with
    | error error =>
      rw [put, hset] at hr
      cases hr
    | ok q' =>
      obtain ⟨p', hp'⟩ := exists_setEach p ⟨q', hset⟩
      exact ⟨preset.setNumbers p', by rw [put, hp']; rfl⟩

theorem checked_eq_ok_iff : p.checked = .ok q ↔ p.check = .ok () ∧ q = p := by
  rw [checked]
  split
  · rename_i hcheck
    simp [hcheck, eq_comm]
  · rename_i error hcheck
    simp [hcheck]

end Parameters

/-! ## Layers -/

namespace Layer

/-- The texts of a layer read. -/
def Reads (layer : Layer) : Prop :=
  ∃ r, ({} : Parameters).put layer = .ok r

/-- The parameters that some layers make on the defaults, without any check. -/
def merge (layers : List Layer) : Except OptionError Parameters :=
  layers.foldlM Parameters.put {}

/-- The parameters that some layers make on the defaults, checked after each layer. -/
def settle (layers : List Layer) : Except OptionError Parameters :=
  layers.foldlM (fun p layer => p.put layer >>= Parameters.checked) {}

/-- The parameters that some layers make pass their check. -/
def Passes (layers : List Layer) : Prop :=
  ∃ p, merge layers = .ok p ∧ p.check = .ok ()

variable {layers : List Layer} {layer : Layer} {p : Parameters}

theorem merge_concat (layers : List Layer) (layer : Layer) :
    merge (layers ++ [layer]) = merge layers >>= (·.put layer) := by
  rw [merge, List.foldlM_append]
  simp only [List.foldlM_cons, List.foldlM_nil, bind_pure]
  rfl

theorem settle_concat (layers : List Layer) (layer : Layer) :
    settle (layers ++ [layer]) =
      settle layers >>= fun p => p.put layer >>= Parameters.checked := by
  rw [settle, List.foldlM_append]
  simp only [List.foldlM_cons, List.foldlM_nil, bind_pure]
  rfl

/-- Layers that read can be put together, in the order in which they are given. -/
theorem exists_merge (h : ∀ layer ∈ layers, layer.Reads) : ∃ p, merge layers = .ok p := by
  induction layers using List.reverseRecOn with
  | nil => exact ⟨{}, rfl⟩
  | append_singleton layers layer ih =>
    obtain ⟨p, hp⟩ := ih fun below hbelow => h below (List.mem_append_left _ hbelow)
    have hlayer : layer.Reads := h layer (List.mem_append_right _ List.mem_cons_self)
    obtain ⟨r, hr⟩ := p.exists_put hlayer
    exact ⟨r, by rw [merge_concat, hp]; exact hr⟩

/-- The defaults pass their check, so a selection without any layer resolves. -/
theorem passes_nil : Passes [] := by
  refine ⟨{}, rfl, Device.eq_ok_of_toOption ?_⟩
  decide +kernel

/-- **Resolving layers.** Layers resolve to what they make together, if what they make pass its
check after each of them. -/
theorem settle_eq_ok_iff :
    settle layers = .ok p ↔ (∀ below, below <+: layers → Passes below) ∧ merge layers = .ok p := by
  induction layers using List.reverseRecOn generalizing p with
  | nil =>
    have hnil : ∀ below, below <+: [] → Passes below := by
      intro below hbelow
      rw [List.prefix_nil.mp hbelow]
      exact passes_nil
    exact ⟨fun h => ⟨hnil, h⟩, fun h => h.2⟩
  | append_singleton layers layer ih =>
    rw [settle_concat, merge_concat]
    simp only [bind_eq_ok_iff, ih, Parameters.checked_eq_ok_iff, List.prefix_concat_iff]
    constructor
    · rintro ⟨q, ⟨hbelow, hq⟩, r, hr, hcheck, rfl⟩
      refine ⟨?_, q, hq, hr⟩
      rintro below (rfl | h)
      · exact ⟨p, by rw [merge_concat, hq]; exact hr, hcheck⟩
      · exact hbelow below h
    · rintro ⟨hbelow, q, hq, hr⟩
      obtain ⟨r, hmerge, hcheck⟩ := hbelow _ (.inl rfl)
      rw [merge_concat, hq] at hmerge
      obtain rfl : p = r := Except.ok.inj (hr.symm.trans hmerge)
      exact ⟨q, ⟨fun below h => hbelow below (.inr h), hq⟩, p, hr, hcheck, rfl⟩

end Layer

/-! ## Presets and selections -/

namespace Preset

/-- The layers of a preset. -/
def layers (preset : Preset) : List Layer :=
  [.line preset.options, .own preset]

end Preset

theorem Parameters.ofText_eq_settle (text : String) : ofText text = Layer.settle [.line text] := by
  rw [← List.nil_append [Layer.line text], Layer.settle_concat]
  rfl

theorem Preset.parameters_eq_settle (preset : Preset) :
    preset.parameters = Layer.settle preset.layers := by
  have hlayers : preset.layers = [Layer.line preset.options] ++ [Layer.own preset] := rfl
  rw [parameters, hlayers, Layer.settle_concat, Parameters.ofText_eq_settle]
  congr 1
  funext base
  rw [Parameters.put]
  cases base.setEach preset.texts <;> rfl

section Selections

variable {m : Type → Type} [Monad m] [Files m]

/-- The layers of a base. -/
def Base.layers : Base → Run m (List Layer)
  | .preset name => do return (← Selection.findPreset name).layers
  | .options text => return [.line text]
  | .defaults => return []

variable [LawfulMonad m]

omit [Files m] in
/-- Of two steps that may end in trouble, the second goes on after the first. -/
theorem orTrouble_bind {ε α β : Type} (trouble : ε → Trouble) (first : Except ε α)
    (next : α → Except ε β) :
    (orTrouble trouble (first >>= next) : Run m β) =
      orTrouble trouble first >>= fun a => orTrouble trouble (next a) := by
  cases first with
  | error error =>
    change throw (trouble error) = throw (trouble error) >>= fun a => orTrouble trouble (next a)
    apply ExceptT.ext
    simp
  | ok a => exact (pure_bind a fun a => orTrouble trouble (next a)).symm

theorem Selection.resolve_eq_settle (s : Selection) :
    (s.resolve : Run m Parameters) = (do
      let layers ← s.base.layers
      orTrouble Trouble.ofOptions (Layer.settle (layers ++ [.values s.overrides]))) := by
  have hoverlay (p : Parameters) :
      p.put (.values s.overrides) >>= Parameters.checked = s.overlay p :=
    rfl
  simp only [Layer.settle_concat, hoverlay, orTrouble_bind]
  rw [resolve]
  cases hbase : s.base with
  | preset name =>
    simp only [resolveBase, Base.layers, bind_assoc, pure_bind, Preset.parameters_eq_settle]
  | options text => simp only [resolveBase, Base.layers, pure_bind, Parameters.ofText_eq_settle]
  | defaults =>
    have hnil : (orTrouble Trouble.ofOptions (Layer.settle []) : Run m Parameters) = pure {} := rfl
    simp only [resolveBase, Base.layers, pure_bind, hnil]

/-- **Layers.** Presets and selections resolve through their layers. If the texts of some layers
read, the layers make parameters together; and they resolve to these exactly if what they make
passes its check after each of them, a layer that others stand on as much as the last. -/
theorem resolve_through_layers :
    (∀ preset : Preset, preset.parameters = Layer.settle preset.layers) ∧
    (∀ s : Selection, (s.resolve : Run m Parameters) = (do
      let layers ← s.base.layers
      orTrouble Trouble.ofOptions (Layer.settle (layers ++ [.values s.overrides])))) ∧
    ∀ layers : List Layer, (∀ layer ∈ layers, layer.Reads) →
      ∃ merged, Layer.merge layers = .ok merged ∧
        ∀ p, Layer.settle layers = .ok p ↔
          (∀ below, below <+: layers → Layer.Passes below) ∧ p = merged := by
  refine ⟨Preset.parameters_eq_settle, Selection.resolve_eq_settle, fun layers hreads => ?_⟩
  obtain ⟨merged, hmerged⟩ := Layer.exists_merge hreads
  refine ⟨merged, hmerged, fun p => ?_⟩
  rw [Layer.settle_eq_ok_iff, hmerged, Except.ok.injEq, eq_comm (a := merged)]

end Selections

theorem Layer.Reads.of_isSome {layer : Layer}
    (h : (({} : Parameters).put layer).toOption.isSome = true) : layer.Reads := by
  obtain ⟨r, hr⟩ := Option.isSome_iff_exists.mp h
  exact ⟨r, Device.eq_ok_of_toOption hr⟩

/-- Two pairs of time constants in an option text, and a gain above it, which leaves the pairs
alone. -/
theorem resolve_through_layers_of_gain :
    let layers := [Layer.line "attacks=0.1|0.2:decays=0.3|0.4", .values [(.gain, some "3")]]
    (∀ layer ∈ layers, layer.Reads) ∧
      ∃ merged, Layer.merge layers = .ok merged ∧ Layer.settle layers = .ok merged := by
  intro layers
  have hreads : ∀ layer ∈ layers, layer.Reads := by
    refine List.forall_mem_cons.mpr ⟨.of_isSome ?_, List.forall_mem_singleton.mpr ?_⟩
    · decide +kernel
    · exact .of_isSome (by decide +kernel)
  obtain ⟨merged, hmerged, hsettle⟩ :=
    (resolve_through_layers (m := StateM Folder)).2.2 layers hreads
  obtain ⟨p, hp⟩ : ∃ p, (Layer.settle layers).toOption = some p :=
    Option.isSome_iff_exists.mp (by decide +kernel)
  have hp := Device.eq_ok_of_toOption hp
  obtain rfl := ((hsettle p).mp hp).2
  exact ⟨hreads, p, hmerged, hp⟩

/-- It does not matter only what the layers make in the end. An option text with two attacks and one
decay is refused, also where a preset sets the decays that belong to them. -/
theorem not_resolves_iff_merged_passes :
    ¬∀ preset : Preset, (∀ layer ∈ preset.layers, layer.Reads) →
      ∀ merged, Layer.merge preset.layers = .ok merged →
        (preset.parameters = .ok merged ↔ merged.check = .ok ()) := by
  intro h
  let preset : Preset :=
    { name := "Pairs", options := "attacks=0.1|0.2", decays := some "0.3|0.4" }
  have hreads : ∀ layer ∈ preset.layers, layer.Reads := by
    refine List.forall_mem_cons.mpr ⟨.of_isSome ?_, List.forall_mem_singleton.mpr ?_⟩
    · decide +kernel
    · exact .of_isSome (by decide +kernel)
  obtain ⟨merged, hmerged⟩ := Layer.exists_merge hreads
  have hcheck : merged.check = .ok () := by
    obtain ⟨p, hp⟩ : ∃ p, (Layer.merge preset.layers >>= Parameters.checked).toOption = some p :=
      Option.isSome_iff_exists.mp (by decide +kernel)
    rw [hmerged] at hp
    exact (Parameters.checked_eq_ok_iff.mp (Device.eq_ok_of_toOption hp)).1
  have hparameters := (h preset hreads merged hmerged).mpr hcheck
  have hrefused : preset.parameters.toOption.isSome = false := by decide +kernel
  rw [hparameters] at hrefused
  cases hrefused

end Compander
