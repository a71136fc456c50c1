import Compander.Proofs.Device.Queues
import Compander.Proofs.Parameters.Checks
import Compander.Proofs.Transfer.Knots

/-!
# Which devices can be set up

A device is set up for a layout that has something to process, from parameters that fit its
channels and whose curve can be drawn, if there is room for it:

* `Device.Fits` — there is room for the curve, the followers and the lookahead;
* `Device.exists_setUp_iff` — which devices are set up;
* `Device.exists_setUp_iff_of_fits` — given room and a layout, these are the ones whose
  parameters are accepted for the channels and whose points are finite;
* `Device.fits_host` — the memory of the host has room for any stream within reason.

Accepted parameters are almost always enough: drawing asks for a knee and a gain that are
already within their limits. But it also asks for finite points, and nothing did so before.

How much room there is cannot be known from the parameters, so it is an argument everywhere but
in the last of these, and `Fits` asks for no more than what a setup asks for.
-/

namespace Compander

/-- A lookahead is made if there is room for the table and for the ring of every channel. -/
theorem Lookahead.exists_create_iff [Memory] {α : Type} (silence : α) {channels capacity : Nat}
    (hcapacity : 0 < capacity) :
    (∃ l : Lookahead α, create silence channels capacity = .ok l) ↔
      Memory.hasRoom .rings channels = true ∧
        ∀ channel < channels, Memory.hasRoom (.ring channel) capacity = true := by
  simp only [create, throw, throwThe, MonadExceptOf.throw, pure, Except.pure, error_bind,
    refuse_eq_ok_iff, check_bind_eq_ok_iff, Storage.reserve_eq_ok_iff, forM_eq_ok_iff,
    List.mem_range, Except.ok.injEq]
  constructor
  · rintro ⟨l, -, hrings, hring, -⟩
    exact ⟨hrings, hring⟩
  · rintro ⟨hrings, hring⟩
    exact ⟨_, hcapacity.ne', hrings, hring, rfl⟩

namespace Device

variable {N : Type} [NarrowArithmetic N] [Precision Float N] {p : Parameters} {layout : Layout}

/-- There is room for all that is set up before a stream starts. -/
structure Fits [Memory] (p : Parameters) (layout : Layout) : Prop where
  /-- for the curve -/
  curve : Transfer.Fits p.points p.softKnee p.gain
  /-- for a follower for each channel -/
  followers : Memory.hasRoom .followers layout.channels = true
  /-- for the table of rings, if there is a lookahead -/
  rings : 0 < Decibel.samplesIn p.delay layout.rate →
    Memory.hasRoom .rings layout.channels = true
  /-- for the ring of each channel, if there is a lookahead -/
  ring : 0 < Decibel.samplesIn p.delay layout.rate → ∀ channel < layout.channels,
    Memory.hasRoom (.ring channel) (Decibel.samplesIn p.delay layout.rate) = true

omit [Precision Float N] in
/-- Which ways to the output are made: the direct one always, and the one through a lookahead
if there is room for all its rings. -/
theorem exists_pathFor_iff [Memory] :
    (∃ path : Path N, pathFor p layout = .ok path) ↔
      (0 < Decibel.samplesIn p.delay layout.rate →
        Memory.hasRoom .rings layout.channels = true ∧
          ∀ channel < layout.channels,
            Memory.hasRoom (.ring channel) (Decibel.samplesIn p.delay layout.rate) = true) := by
  simp only [pathFor]
  by_cases hnone : Decibel.samplesIn p.delay layout.rate = 0
  · simp [hnone]
  · have hcapacity := Nat.pos_of_ne_zero hnone
    rw [← Lookahead.exists_create_iff (0.0 : N) hcapacity]
    simp only [hnone, if_false, hcapacity, true_implies]
    cases Lookahead.create (0.0 : N) layout.channels (Decibel.samplesIn p.delay layout.rate) with
    | error error => simp [Except.map]
    | ok line => simp [Except.map]

/-- **Which devices are set up**: those for a layout that is not refused, from parameters that
fit it, with finite points, and with room. -/
theorem exists_setUp_iff [Memory] :
    (∃ d : Device N, setUp p layout = .ok d) ↔
      layout.check = .ok () ∧ p.checkFor layout.channels = .ok () ∧
        (∀ q ∈ p.points, q.isFinite = true) ∧ Fits p layout := by
  constructor
  · rintro ⟨d, hd⟩
    have hnew := isNew_of_setUp hd
    obtain ⟨-, -, -, hfinite, -, hcurve⟩ :=
      Transfer.exists_draw_iff.mp ⟨d.curve, hnew.curve_drawn⟩
    simp only [setUp, bind_eq_ok_iff] at hd
    obtain ⟨_, -, _, -, _, -, _, hfollowers, path, hpath, -⟩ := hd
    have hroom := exists_pathFor_iff.mp ⟨path, hpath⟩
    exact ⟨hnew.layout_checked, hnew.parameters_checked, hfinite, hcurve,
      Storage.reserve_eq_ok_iff.mp hfollowers, fun hsome => (hroom hsome).1,
      fun hsome => (hroom hsome).2⟩
  · rintro ⟨hlayout, hparameters, hfinite, hfits⟩
    obtain ⟨haccepted, -⟩ := Parameters.checkFor_eq_ok_iff.mp hparameters
    obtain ⟨curve, hcurve⟩ : ∃ curve : Transfer N,
        Transfer.draw p.points p.softKnee p.gain = .ok curve :=
      Transfer.exists_draw_iff.mpr ⟨haccepted.points_ne_nil, haccepted.softKnee_pos,
        haccepted.gain_isFinite, hfinite, haccepted.inOrder, hfits.curve⟩
    obtain ⟨path, hpath⟩ : ∃ path : Path N, pathFor p layout = .ok path :=
      exists_pathFor_iff.mpr fun hsome => ⟨hfits.rings hsome, hfits.ring hsome⟩
    simp only [setUp, bind_eq_ok_iff]
    exact ⟨_, (), hlayout, (), hparameters, curve, hcurve, (),
      Storage.reserve_eq_ok_iff.mpr hfits.followers, path, hpath, rfl⟩

/-- **Checks and setup.** Given room and a layout that has something to process, a device is
set up exactly if its parameters are accepted for the channels and its points are finite. -/
theorem exists_setUp_iff_of_fits [Memory] (hlayout : layout.check = .ok ())
    (hfits : Fits p layout) :
    (∃ d : Device N, setUp p layout = .ok d) ↔
      p.checkFor layout.channels = .ok () ∧ ∀ q ∈ p.points, q.isFinite = true := by
  rw [exists_setUp_iff]
  constructor
  · rintro ⟨-, hparameters, hfinite, -⟩
    exact ⟨hparameters, hfinite⟩
  · rintro ⟨hparameters, hfinite⟩
    exact ⟨hlayout, hparameters, hfinite, hfits⟩

/-- The host has room for every stream that is within reason, so that `Fits` is not an empty
condition. -/
theorem fits_host (hpoints : p.points.length + 2 ≤ 2 ^ 28) (hchannels : layout.channels ≤ 2 ^ 28)
    (hheld : Decibel.samplesIn p.delay layout.rate ≤ 2 ^ 31) : Fits p layout := by
  refine ⟨.of_length (Memory.hasRoom_host ?_) (Memory.hasRoom_host ?_), Memory.hasRoom_host ?_,
    fun _ => Memory.hasRoom_host ?_, fun _ channel _ => Memory.hasRoom_host ?_⟩
  all_goals
    dsimp only [Storage.elementBytes]
    omega

/-- Two channels with a lookahead of half a second, and the default parameters otherwise, on
the memory of the host. -/
theorem exists_setUp_with_lookahead :
    Layout.check ⟨2, 48000, ⟨1, 1000⟩⟩ = .ok () ∧
    Fits { delay := 0.5 } ⟨2, 48000, ⟨1, 1000⟩⟩ ∧
    ∃ d : Device, setUp { delay := 0.5 } ⟨2, 48000, ⟨1, 1000⟩⟩ = .ok d := by
  have hfits : Fits { delay := 0.5 } ⟨2, 48000, ⟨1, 1000⟩⟩ :=
    fits_host (by decide) (by decide) (by decide +kernel)
  have hchecked : Parameters.checkFor { delay := 0.5 } 2 = .ok () := by
    refine eq_ok_of_toOption ?_
    decide +kernel
  have hfinite : ∀ q ∈ ({ delay := 0.5 } : Parameters).points, q.isFinite = true := by
    decide +kernel
  exact ⟨rfl, hfits, (exists_setUp_iff_of_fits rfl hfits).mpr ⟨hchecked, hfinite⟩⟩

/-- Parameters are accepted from which no device is set up, with room for it: drawing refuses
a point that is not a number. -/
theorem not_exists_setUp_of_checked :
    ¬∀ (p : Parameters) (layout : Layout), layout.check = .ok () → Fits p layout →
      (p.checkFor layout.channels = .ok () ↔ ∃ d : Device, setUp p layout = .ok d) := by
  intro h
  have hfits : Fits { points := [⟨0.0 / 0.0, 0.0⟩] } (.perSample 1 48000) :=
    fits_host (by decide) (by decide) (by decide +kernel)
  have hchecked : Parameters.checkFor { points := [⟨0.0 / 0.0, 0.0⟩] } 1 = .ok () := by
    refine eq_ok_of_toOption ?_
    decide +kernel
  have hsetUp := (h _ (.perSample 1 48000) rfl hfits).mp hchecked
  obtain ⟨-, -, hfinite, -⟩ := exists_setUp_iff.mp hsetUp
  have hpoint : (⟨0.0 / 0.0, 0.0⟩ : Point Float).isFinite = false := by decide +kernel
  rw [hfinite _ (List.mem_singleton.mpr rfl)] at hpoint
  cases hpoint

end Device

end Compander
