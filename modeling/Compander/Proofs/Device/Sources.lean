import Mathlib.Tactic.Choose
import Compander.Proofs.Device.Setup
import Compander.Proofs.Parameters.Layers

/-!
# Devices for resolved parameters

Whatever parameters are resolved from, their numbers have been through the readers and the checks
that keep out what a device cannot be set up from: points that are not finite never leave their
reader, and everything else is checked.

* `Parameters.HasFinitePoints.put` — no layer brings in a point that is not finite;
* `Layer.writable_of_settle` — resolved parameters are accepted, and their points are finite;
* `Device.isSetUpFrom_of_resolved` — so a device is set up from them;
* `of_map_val_eq_pure` — how to find out what holds of all outcomes of an action that reads files.

Three ways lead to parameters: an option text, a preset by its name, and what is selected on the
command line. The last one may read files, so its outcome hangs on what is in them, and the
statement about it is one about every outcome.
-/

namespace Compander

open Command (Trouble)
open Command.Run

/-! ## Points -/

theorem isFinite_of_readPoint? {text : List Char} {p : Point Float}
    (h : readPoint? text = some p) : p.isFinite = true := by
  rw [readPoint?] at h
  simp only [Option.bind_eq_bind, Option.bind_eq_some_iff] at h
  obtain ⟨_, -, _, -, _, -, h⟩ := h
  split at h
  · rename_i hfinite
    cases h
    exact hfinite
  · cases h

/-- Points that are read are finite, both as a level and as a gain, since the reader of
numbers lets no other through. -/
theorem isFinite_of_readPointsAfter {previous : Option Float} {texts : List (List Char)}
    {points : List (Point Float)} (h : readPointsAfter previous texts = .ok points) :
    ∀ q ∈ points, q.isFinite = true := by
  induction texts generalizing previous points with
  | nil =>
    cases h
    exact List.forall_mem_nil _
  | cons text rest ih =>
    rw [readPointsAfter] at h
    cases hread : readPoint? text with
    | none =>
      rw [hread] at h
      cases h
    | some p =>
      simp only [hread, refuse_eq_ok_iff] at h
      cases hrest : readPointsAfter (some p.input) rest with
      | error error =>
        rw [hrest] at h
        cases h.2
      | ok more =>
        rw [hrest] at h
        cases h.2
        exact List.forall_mem_cons.mpr ⟨isFinite_of_readPoint? hread, ih hrest⟩

namespace Parameters

variable {p q : Parameters}

/-- The points of some parameters are finite. -/
def HasFinitePoints (p : Parameters) : Prop :=
  ∀ q ∈ p.points, q.isFinite = true

theorem hasFinitePoints_default : HasFinitePoints {} := by
  unfold HasFinitePoints
  decide +kernel

/-! ## Setting options -/

theorem HasFinitePoints.setAs {s : Setting} {name : String} {value : List Char}
    (h : p.HasFinitePoints) (hset : p.setAs s name value = .ok q) : q.HasFinitePoints := by
  cases s with
  | points =>
    cases hread : readPoints value with
    | error error =>
      rw [Parameters.setAs, hread] at hset
      cases hset
    | ok points =>
      rw [Parameters.setAs, hread] at hset
      cases hset
      exact isFinite_of_readPointsAfter hread
  | attacks | decays =>
    rw [Parameters.setAs] at hset
    cases hread : readTimes name value <;> rw [hread] at hset <;> cases hset
    exact h
  | softKnee | gain | volume | delay =>
    rw [Parameters.setAs] at hset
    cases hread : readNumber name value <;> rw [hread] at hset <;> cases hset
    exact h

theorem HasFinitePoints.set {name : String} {value : List Char} (h : p.HasFinitePoints)
    (hset : p.set name value = .ok q) : q.HasFinitePoints := by
  rw [Parameters.set] at hset
  split at hset
  · exact h.setAs hset
  · cases hset

theorem HasFinitePoints.setItems {free : List Setting} {items : List Item}
    (h : p.HasFinitePoints) (hset : p.setItems free items = .ok q) : q.HasFinitePoints := by
  induction items generalizing p free with
  | nil =>
    rw [Parameters.setItems] at hset
    cases hset
    exact h
  | cons item rest ih =>
    cases item with
    | named name value =>
      rw [Parameters.setItems, bind_eq_ok_iff] at hset
      obtain ⟨r, hr, hrest⟩ := hset
      exact ih (h.set hr) hrest
    | bare value =>
      cases free with
      | nil => cases hset
      | cons s free =>
        rw [Parameters.setItems, bind_eq_ok_iff] at hset
        obtain ⟨r, hr, hrest⟩ := hset
        exact ih (h.setAs hr) hrest

theorem HasFinitePoints.setEach {overrides : List (Setting × Option String)}
    (h : p.HasFinitePoints) (hset : p.setEach overrides = .ok q) : q.HasFinitePoints := by
  induction overrides generalizing p with
  | nil =>
    cases hset
    exact h
  | cons override rest ih =>
    obtain ⟨s, text | text⟩ := override
    · exact ih h hset
    · rw [Parameters.setEach, bind_eq_ok_iff] at hset
      obtain ⟨r, hr, hrest⟩ := hset
      exact ih (h.setAs hr) hrest

/-- No layer brings in a point that is not finite, be it from a text, from a document or from
the command line. -/
theorem HasFinitePoints.put {layer : Layer} (h : p.HasFinitePoints)
    (hput : p.put layer = .ok q) : q.HasFinitePoints := by
  cases layer with
  | line text => exact h.setItems hput
  | values overrides => exact h.setEach hput
  | own preset =>
    rw [Parameters.put] at hput
    cases hset : p.setEach preset.texts with
    | error error =>
      rw [hset] at hput
      cases hput
    | ok r =>
      rw [hset] at hput
      cases hput
      -- the numbers of a preset are not those of points
      exact (h.setEach hset : r.HasFinitePoints)

end Parameters

/-! ## Layers -/

namespace Layer

variable {layers : List Layer} {p : Parameters}

theorem hasFinitePoints_of_merge (h : merge layers = .ok p) : p.HasFinitePoints := by
  induction layers using List.reverseRecOn generalizing p with
  | nil =>
    cases h
    exact Parameters.hasFinitePoints_default
  | append_singleton layers layer ih =>
    rw [merge_concat, bind_eq_ok_iff] at h
    obtain ⟨q, hq, hput⟩ := h
    exact (ih hq).put hput

/-- Resolved parameters are accepted, and their points are finite, which is all that a device
asks of them. -/
theorem writable_of_settle (h : settle layers = .ok p) : p.Writable := by
  obtain ⟨hpasses, hmerge⟩ := settle_eq_ok_iff.mp h
  obtain ⟨q, hq, hcheck⟩ := hpasses layers (List.prefix_refl layers)
  obtain rfl : q = p := Except.ok.inj (hq.symm.trans hmerge)
  exact ⟨Parameters.check_eq_ok_iff.mp hcheck, hasFinitePoints_of_merge hmerge⟩

end Layer

/-! ## Devices -/

namespace Device

variable {N : Type} [NarrowArithmetic N] [Precision Float N]

/-- A device is set up from parameters for every layout that has something to process and a channel
for each pair of time constants, if there is room. -/
def IsSetUpFrom [Memory] (N : Type) [NarrowArithmetic N] [Precision Float N] (p : Parameters) :
    Prop :=
  ∀ layout : Layout, layout.check = .ok () → p.attacks.length ≤ layout.channels →
    Fits p layout → ∃ d : Device N, setUp p layout = .ok d

theorem isSetUpFrom_of_writable [Memory] {p : Parameters} (h : p.Writable) : IsSetUpFrom N p := by
  intro layout hlayout hchannels hfits
  exact exists_setUp_iff.mpr ⟨hlayout, Parameters.checkFor_eq_ok_iff.mpr ⟨h.accepted, hchannels⟩,
    h.points_isFinite, hfits⟩

/-- A result with a property is one of a program that gives out only what has it. -/
theorem exists_orTrouble {m : Type → Type} [Monad m] [LawfulMonad m] {ε α : Type} {P : α → Prop}
    (trouble : ε → Trouble) {outcome : Except ε α} (h : ∀ a, outcome = .ok a → P a) :
    ∃ program : Command.Run m { a // P a },
      Subtype.val <$> program = orTrouble trouble outcome := by
  cases outcome with
  | ok a => exact ⟨pure ⟨a, h a rfl⟩, map_pure _ _⟩
  | error error =>
    refine ⟨throw (trouble error), ?_⟩
    apply ExceptT.ext
    simp [orTrouble]

/-- **Resolved parameters.** A device is set up from whatever an option text, a preset or a command
line resolves to. Of a command line, whose preset may be in a file, this says that the program which
resolves it gives out no other parameters. -/
theorem isSetUpFrom_of_resolved [Memory] :
    (∀ text p, Parameters.ofText text = .ok p → IsSetUpFrom N p) ∧
    (∀ (preset : Preset) p, preset.parameters = .ok p → IsSetUpFrom N p) ∧
    ∀ {m : Type → Type} [Monad m] [LawfulMonad m] [Files m] (s : Selection),
      ∃ program : Command.Run m { p // IsSetUpFrom N p }, Subtype.val <$> program = s.resolve := by
  have hsettle (layers : List Layer) (p : Parameters) (h : Layer.settle layers = .ok p) :
      IsSetUpFrom N p := isSetUpFrom_of_writable (Layer.writable_of_settle h)
  refine ⟨fun text p h => ?_, fun preset p h => ?_, fun {m} _ _ _ s => ?_⟩
  · rw [Parameters.ofText_eq_settle] at h
    exact hsettle _ p h
  · rw [Preset.parameters_eq_settle] at h
    exact hsettle _ p h
  · choose program hprogram using fun layers : List Layer =>
      exists_orTrouble (m := m) Trouble.ofOptions (hsettle (layers ++ [.values s.overrides]))
    refine ⟨s.base.layers >>= program, ?_⟩
    rw [s.resolve_eq_settle, map_bind]
    simp only [hprogram]

/-- A program over a tree of files that gives out only values with a property, and does give one
out, gives one out that has it. -/
theorem of_map_val_eq_pure {α : Type} {P : α → Prop} {a : α}
    {program : Command.Run (StateM Folder) { a // P a }} (h : Subtype.val <$> program = pure a) :
    P a := by
  have hrun : Except.map Subtype.val (program.run "" {}).1.1 = .ok a := by
    have hfirst : ((Subtype.val <$> program).run "" {}).1.1 = .ok a := by
      rw [h]
      rfl
    rw [ExceptT.run_map] at hfirst
    exact hfirst
  cases hanswer : (program.run "" {}).1.1 with
  | error trouble =>
    rw [hanswer] at hrun
    cases hrun
  | ok value =>
    rw [hanswer] at hrun
    cases hrun
    exact value.property

/-- Two pairs of time constants and a lookahead on two channels: from an option text, from a preset
with the lookahead as a value of its own, and from a command line that sets it above a text. -/
theorem isSetUpFrom_of_two_pairs :
    (∃ p, Parameters.ofText "attacks=0.02|0.05:decays=0.3|0.3:delay=0.5" = .ok p ∧
      ∃ d : Device, setUp p ⟨2, 48000, ⟨1, 1000⟩⟩ = .ok d) ∧
    (∃ p, Preset.parameters
        { name := "pairs", options := "attacks=0.02|0.05:decays=0.3|0.3", delay := some 0.5 } =
          .ok p ∧
      ∃ d : Device, setUp p ⟨2, 48000, ⟨1, 1000⟩⟩ = .ok d) ∧
    ∃ p, (Selection.resolve ⟨.options "attacks=0.02|0.05:decays=0.3|0.3",
        [(.delay, some "0.5")]⟩ : Command.Run (StateM Folder) Parameters) = pure p ∧
      ∃ d : Device, setUp p ⟨2, 48000, ⟨1, 1000⟩⟩ = .ok d := by
  obtain ⟨htext, hpreset, hselection⟩ := isSetUpFrom_of_resolved (N := Float32)
  -- of what is resolved only three sizes matter
  have hsetUp (outcome : Except OptionError Parameters)
      (hsizes : outcome.toOption.map (fun p =>
        (p.attacks.length, Decibel.samplesIn p.delay 48000, p.points.length)) = some (2, 24000, 2))
      (h : ∀ p, outcome = .ok p → IsSetUpFrom Float32 p) :
      ∃ p, outcome = .ok p ∧ ∃ d : Device, setUp p ⟨2, 48000, ⟨1, 1000⟩⟩ = .ok d := by
    obtain ⟨p, hp, hsizes⟩ := Option.map_eq_some_iff.mp hsizes
    obtain ⟨hpairs, hheld, hpoints⟩ :
        p.attacks.length = 2 ∧ Decibel.samplesIn p.delay 48000 = 24000 ∧ p.points.length = 2 := by
      simpa using hsizes
    have hok := eq_ok_of_toOption hp
    have hfits : Fits p ⟨2, 48000, ⟨1, 1000⟩⟩ :=
      fits_host (by rw [hpoints]; decide) (by decide) (by rw [hheld]; decide)
    exact ⟨p, hok, h p hok ⟨2, 48000, ⟨1, 1000⟩⟩ rfl hpairs.le hfits⟩
  refine ⟨hsetUp _ (by decide +kernel) (htext _), hsetUp _ (by decide +kernel) (hpreset _), ?_⟩
  set selection : Selection :=
    ⟨.options "attacks=0.02|0.05:decays=0.3|0.3", [(.delay, some "0.5")]⟩
  set layers : List Layer :=
    [.line "attacks=0.02|0.05:decays=0.3|0.3", .values [(.delay, some "0.5")]]
  have hresolve (p : Parameters) (hp : Layer.settle layers = .ok p) :
      (selection.resolve : Command.Run (StateM Folder) Parameters) = pure p := by
    have hsettle : (selection.resolve : Command.Run (StateM Folder) Parameters) =
        orTrouble Trouble.ofOptions (Layer.settle layers) :=
      selection.resolve_eq_settle
    rw [hsettle, hp]
    rfl
  obtain ⟨program, hprogram⟩ := hselection (m := StateM Folder) selection
  obtain ⟨p, hp, hd⟩ := hsetUp (Layer.settle layers) (by decide +kernel) fun p hp =>
    of_map_val_eq_pure (hprogram.trans (hresolve p hp))
  exact ⟨p, hresolve p hp, hd⟩

end Device

end Compander
