import Compander.Proofs.Device.Signal
import Compander.Proofs.Floating.Single

/-!
# What keeps samples in range

Samples that go into a device lie within `[-1, 1]`. What comes out has been clipped, so it
lies there too if it is a number at all, and that hangs on the gain: a gain that is not a
number spoils every sample, and an infinite one spoils silence.

* `Device.KeepsRange` — samples within range come out within range, and silence as silence;
* `Device.keepsRange_iff` — a device does so if and only if no sample in range ever meets a
  gain that spoils it.

Accepted parameters can lead to such a gain. The gain at the floor of the curve is an
exponential in single precision, which overflows for a make-up gain that no check refuses, and
then a stream of zeros comes out as something that is not a number. The condition is on the gains
that samples meet, and so on the volumes that can be reached; it is exact, because any samples in
range can be put on a channel, and a run finished at its end brings each of them out.
-/

namespace Compander.Device

open Single

/-- Whatever the calls, samples within `[-1, 1]` come out within `[-1, 1]`, and silence comes
out as silence. -/
def KeepsRange (start : Device) : Prop :=
  ∀ (ins outs : List (Buffer Float32)) (d : Device), Run start ins outs d →
    (∀ b ∈ ins, ∀ plane ∈ b.planes, ∀ x ∈ plane, InRange x) →
      ∀ channel < start.layout.channels, ∀ (k : Nat) (y : Float32),
        (Buffer.track outs channel)[k]? = some y →
          InRange y ∧ ∀ x, (Buffer.track ins channel)[k]? = some x →
            (x == 0.0) = true → (y == 0.0) = true

/-- The samples of a channel of buffers in range are in range, however many buffers they came
in. -/
theorem inRange_of_mem_track {ins : List (Buffer Float32)}
    (h : ∀ b ∈ ins, ∀ plane ∈ b.planes, ∀ x ∈ plane, InRange x) {channel : Nat} {x : Float32}
    (hx : x ∈ Buffer.track ins channel) : InRange x := by
  obtain ⟨b, hb, hmem⟩ := List.mem_flatMap.mp hx
  rw [Buffer.plane, List.getD_eq_getElem?_getD] at hmem
  cases hplane : b.planes[channel]? with
  | none =>
    rw [hplane] at hmem
    cases hmem
  | some plane =>
    rw [hplane] at hmem
    exact h b hb plane (List.mem_of_getElem? hplane) x hmem

/-- The same samples on every channel. -/
def spread (channels : Nat) (samples : List Float32) : Buffer Float32 :=
  ⟨List.replicate channels samples, none⟩

theorem plane_spread {channels channel : Nat} (samples : List Float32) (hc : channel < channels) :
    (spread channels samples).plane channel = samples := by
  rw [spread, Buffer.plane, List.getD_eq_getElem?_getD, List.getElem?_replicate, if_pos hc,
    Option.getD_some]

theorem hasShape_spread {channels : Nat} (samples : List Float32) (hpos : 0 < channels) :
    (spread channels samples).HasShape channels (spread channels samples).length := by
  have hshape : (spread channels samples).HasShape channels samples.length :=
    ⟨List.length_replicate, fun plane hp => by rw [(List.mem_replicate.mp hp).2]⟩
  rwa [hshape.length_eq hpos]

/-- The same samples on every channel go through a new device to the end, each under the gain
of its channel. This is how a gain that is met on paper is met by a sample. -/
theorem exists_run_spread [Memory] {p : Parameters} {layout : Layout} {start : Device}
    (hnew : IsNew p layout start) (samples : List Float32) :
    ∃ outs d, Run start [spread layout.channels samples] outs d ∧
      ∀ channel < layout.channels, Buffer.track outs channel =
        shapeAhead start.curve start.latency (followerFor p layout.rate channel) samples := by
  obtain ⟨hpos, -, -⟩ := of_layout_check hnew.layout_checked
  have hshape : ∀ b ∈ [spread layout.channels samples], b.HasShape layout.channels b.length := by
    intro b hb
    obtain rfl := List.mem_singleton.mp hb
    exact hasShape_spread samples hpos
  obtain ⟨outs, d, -, hrun, htrack⟩ := hnew.stream hshape
  refine ⟨outs, d, hrun, fun channel hc => ?_⟩
  rw [htrack channel hc, Buffer.track_singleton, plane_spread samples hc]

/-- Each sample of a channel comes out under the gain that it meets, the one of the volume
`ahead` samples later. -/
theorem getElem?_shapeAhead (curve : Transfer Float32) (ahead : Nat) (f : Follower Float32)
    {samples : List Float32} {k : Nat} {x : Float32} (hx : samples[k]? = some x) :
    (shapeAhead curve ahead f samples)[k]? =
      some (shape curve x (f.volumeAt samples (k + ahead))) := by
  obtain ⟨hk, rfl⟩ := List.getElem?_eq_some_iff.mp hx
  rw [shapeAhead, List.getElem?_ofFn, dif_pos hk]
  rfl

/-- **Keeping range.** A new device keeps samples in range if and only if, whatever its
channels hear within range, each sample meets a gain that is a number, and that is finite
where the sample is silent. -/
theorem keepsRange_iff [Memory] {p : Parameters} {layout : Layout} {start : Device}
    (hnew : setUp p layout = .ok start) :
    start.KeepsRange ↔
      ∀ channel < layout.channels, ∀ samples : List Float32, (∀ x ∈ samples, InRange x) →
        ∀ (k : Nat) (x : Float32), samples[k]? = some x →
          Tame x (start.curve.gain
            ((followerFor p layout.rate channel).volumeAt samples (k + start.latency))) := by
  have hstart := isNew_of_setUp hnew
  constructor
  · intro hkeeps channel hc samples hrange k x hx
    -- a stream that has the samples on every channel shows what the gain does to them
    obtain ⟨outs, d, hrun, houts⟩ := exists_run_spread hstart samples
    have hins : ∀ b ∈ [spread layout.channels samples], ∀ plane ∈ b.planes, ∀ x ∈ plane,
        InRange x := by
      intro b hb plane hp x hx
      obtain rfl := List.mem_singleton.mp hb
      rw [(List.mem_replicate.mp hp).2] at hx
      exact hrange x hx
    have hy := getElem?_shapeAhead start.curve start.latency (followerFor p layout.rate channel) hx
    rw [← houts channel hc] at hy
    obtain ⟨hrange', hsilent⟩ := hkeeps _ _ _ hrun hins channel (hstart.layout_eq ▸ hc) k _ hy
    refine (tame_iff (hrange x (List.mem_of_getElem? hx))).mpr ⟨hrange', hsilent x ?_⟩
    rw [Buffer.track_singleton, plane_spread samples hc, hx]
  · intro htame ins outs d hrun hrange channel hc k y hy
    rw [hstart.layout_eq] at hc
    obtain ⟨drained, hstands⟩ := hrun.stands hstart.holds
    -- what has come out so far is the beginning of what comes out if the stream ends here
    obtain ⟨rest, hall⟩ := hstands.track_prefix (hstart.getElem?_followers hc)
    have hk : k < (Buffer.track outs channel).length := (List.getElem?_eq_some_iff.mp hy).1
    rw [← List.getElem?_append_left hk, hall] at hy
    have hlt : k < (Buffer.track ins channel).length := by
      have hlength := (List.getElem?_eq_some_iff.mp hy).1
      rwa [shapeAhead, List.length_ofFn] at hlength
    have hx := List.getElem?_eq_getElem hlt
    rw [getElem?_shapeAhead _ _ _ hx] at hy
    obtain rfl := Option.some.inj hy
    have hins : ∀ x ∈ Buffer.track ins channel, InRange x :=
      fun x hx => inRange_of_mem_track hrange hx
    obtain ⟨hout, hsilent⟩ := (tame_iff (hins _ (List.getElem_mem hlt))).mp
      (htame channel hc _ hins k _ hx)
    refine ⟨hout, fun x hx' hzero => ?_⟩
    rw [hx] at hx'
    obtain rfl := Option.some.inj hx'
    exact hsilent hzero

/-- An output gain of 900 dB, which the limits allow, is infinite as a single, and silence
under it is not a number. -/
theorem not_keepsRange_of_infinite_gain :
    ∃ start : Device,
      setUp { attacks := [0.0], decays := [0.0], gain := 900.0 } (.perSample 1 48000) =
        .ok start ∧ ¬start.KeepsRange := by
  have hgain : ((setUp (N := Float32) { attacks := [0.0], decays := [0.0], gain := 900.0 }
      (.perSample 1 48000)).toOption.map fun start => (start.curve.gain
        ((followerFor { attacks := [0.0], decays := [0.0], gain := 900.0 } 48000 0).volumeAt [0.0]
          (0 + start.latency))).isFinite) = some false := by
    decide +kernel
  obtain ⟨start, hstart, hinfinite⟩ := Option.map_eq_some_iff.mp hgain
  have hnew := eq_ok_of_toOption hstart
  refine ⟨start, hnew, fun hkeeps => ?_⟩
  have hsilence : ∀ x ∈ [(0.0 : Float32)], InRange x := by
    intro x hx
    obtain rfl := List.mem_singleton.mp hx
    exact ⟨by decide, by decide⟩
  have htame := (keepsRange_iff hnew).mp hkeeps 0 Nat.one_pos [0.0] hsilence 0 0.0 rfl
  have hfinite := htame.isFinite_of_zero (by decide)
  rw [show (Layout.perSample 1 48000).rate = 48000 from rfl, hinfinite] at hfinite
  cases hfinite

end Compander.Device
