import Compander.Proofs.Device.Run

/-!
# What a stream turns into

A whole stream through a device, finished at its end, is a function of the samples of
each channel: every sample comes out once, in order, under the gain of the volume that
its channel has `latency` samples later, or at its end. How the stream was cut into
buffers leaves no trace.

* `Cuts` — some buffers are a stream cut into pieces;
* `Device.shapeAhead` — the samples of a channel, each under the gain of a later volume;
* `Device.stream_of_cuts` — what a new device turns a stream into.

This says at once that the output is as long as the input, that it is delayed by nothing, and
that the gain looks ahead by `latency` samples. It holds for samples of any kind, as no rounding
is done twice: the samples of a channel meet the same operations in the same order, whatever the
buffers. Empty buffers are pieces too.
-/

namespace Compander

variable {N : Type}

/-- Buffers that are the channels of a stream cut into pieces, which may be empty. -/
structure Cuts {α : Type} (channels : Nat) (input : Nat → List α) (blocks : List (Buffer α)) :
    Prop where
  /-- every piece has all channels -/
  channels_eq : ∀ b ∈ blocks, b.channels = channels
  /-- all channels of a piece are equally long -/
  isWellFormed : ∀ b ∈ blocks, b.isWellFormed = true
  /-- the pieces of a channel are the channel -/
  track_eq : ∀ channel < channels, Buffer.track blocks channel = input channel

theorem Cuts.hasShape {α : Type} {channels : Nat} {input : Nat → List α}
    {blocks : List (Buffer α)} (h : Cuts channels input blocks) :
    ∀ b ∈ blocks, b.HasShape channels b.length := by
  intro b hb
  have hwell := h.isWellFormed b hb
  rw [Buffer.isWellFormed, List.all_eq_true] at hwell
  exact ⟨h.channels_eq b hb, fun plane hp => of_decide_eq_true (hwell plane hp)⟩

namespace Device

variable [NarrowArithmetic N]

/-- The samples of a channel, each under the gain of the volume that the follower has a
number of samples later, or at the end. -/
def shapeAhead (curve : Transfer N) (ahead : Nat) (f : Follower N) (samples : List N) : List N :=
  List.ofFn fun k : Fin samples.length => shape curve samples[k] (f.volumeAt samples (k + ahead))

/-- What leaves a channel while it is heard and what stays are the samples of the channel,
each under the gain of a later volume. -/
theorem shapeLeaving_append_staying (curve : Transfer N) (capacity : Nat) (f : Follower N)
    (samples : List N) :
    shapeLeaving curve capacity [] f samples ++
        (Ring.staying capacity samples).map (shape curve · (f.after samples).volume) =
      shapeAhead curve capacity f samples := by
  have hleft : (shapeLeaving curve capacity [] f samples).length = samples.length - capacity := by
    rw [length_shapeLeaving curve f samples (Nat.zero_le _), List.length_nil, Nat.zero_add]
  apply List.ext_getElem
  · rw [List.length_append, hleft, List.length_map, Ring.length_staying, shapeAhead,
      List.length_ofFn]
    omega
  · intro k hk hk'
    rw [shapeAhead, List.length_ofFn] at hk'
    simp only [shapeAhead, List.getElem_ofFn]
    rcases Nat.lt_or_ge k (samples.length - capacity) with hlt | hge
    · -- this sample leaves while the channel is heard
      have hlater : samples.length - min (samples.length - capacity) samples.length + k =
          k + capacity := by
        omega
      rw [List.getElem_append_left (hleft ▸ hlt)]
      simp only [shapeLeaving, List.nil_append, List.getElem_zipWith, Ring.leaving,
        List.getElem_take, List.getElem_drop, Follower.getElem_volumes, List.length_take, hlater,
        Fin.getElem_fin]
    · -- this sample stays until the end
      have hplace : samples.length - capacity + (k - (samples.length - capacity)) = k := by
        omega
      have hend : samples.length ≤ k + capacity + 1 := by
        omega
      rw [List.getElem_append_right (hleft ▸ hge), List.getElem_map, f.volumeAt_of_le hend]
      simp only [hleft, Ring.staying, List.getElem_drop, hplace, Fin.getElem_fin]

variable {start d : Device N} {ins outs : List (Buffer N)} {drained channel : Nat} {f : Follower N}

/-- What a channel has emitted is the beginning of what it is going to emit. -/
theorem Stands.track_prefix (h : Stands start ins outs d drained)
    (hf : start.followers[channel]? = some f) :
    Buffer.track outs channel <+:
      shapeAhead start.curve start.latency f (Buffer.track ins channel) := by
  rw [h.track_eq channel f hf, ← shapeLeaving_append_staying, List.map_take]
  exact (List.prefix_append_right_inj _).mpr (List.take_prefix _ _)

/-- Once nothing is held, a channel has emitted all its samples, those from the end of the
stream under its last volume. -/
theorem Stands.track_eq_shapeAhead (h : Stands start ins outs d drained)
    (hf : start.followers[channel]? = some f) (hnone : d.pending = 0) :
    Buffer.track outs channel =
      shapeAhead start.curve start.latency f (Buffer.track ins channel) := by
  have hc : channel < d.layout.channels :=
    h.holds.length_followers ▸ (List.getElem?_eq_some_iff.mp (h.follower_eq channel f hf)).1
  have hempty := h.holds.length_queue hc
  rw [hnone, List.length_drop] at hempty
  rw [h.track_eq channel f hf, List.take_of_length_le (by omega), shapeLeaving_append_staying]

/-- A whole stream through a new device is a run without a fault, at the end of which each
channel has emitted all its samples. -/
theorem IsNew.stream [Memory] [Precision Float N] {p : Parameters} {layout : Layout}
    (h : IsNew p layout start) {blocks : List (Buffer N)}
    (hblocks : ∀ b ∈ blocks, b.HasShape layout.channels b.length) :
    ∃ outs d, start.stream blocks = .ok outs ∧ Run start blocks outs d ∧
      ∀ channel < layout.channels, Buffer.track outs channel =
        shapeAhead start.curve start.latency (followerFor p layout.rate channel)
          (Buffer.track blocks channel) := by
  obtain ⟨outs, d₁, hall, hstands⟩ := (Stands.new h.holds).processAll h.draining_eq
    (h.layout_eq.symm ▸ hblocks)
  obtain ⟨rest, d₂, hfinish, -, hnone⟩ := hstands.holds.finish
  have hrun : Run start blocks (outs ++ rest) d₂ := (Run.new.processAll hall).drainUpTo hfinish
  obtain ⟨drained, hdone⟩ := hrun.stands h.holds
  refine ⟨outs ++ rest, d₂, ?_, hrun, fun channel hc => ?_⟩
  · simp only [Device.stream, hall, hfinish, bind, Except.bind, pure, Except.pure]
  · exact hdone.track_eq_shapeAhead (h.getElem?_followers hc) hnone

/-- **A whole stream.** A new device that is given a stream in any pieces, and then
finished, meets no fault, and puts out every sample of every channel under the gain for
the volume `latency` samples later, or for the volume at the end if there are not as many
samples left. Nothing is asked of the arithmetic, so it is so whatever a follower makes of a
sample, the curve of a volume, and clipping of a product. -/
theorem stream_of_cuts [Memory] [Precision Float N] {p : Parameters} {layout : Layout}
    {d : Device N}
    (hnew : setUp p layout = .ok d) {input : Nat → List N} {blocks : List (Buffer N)}
    (hcuts : Cuts layout.channels input blocks) :
    ∃ outs, d.stream blocks = .ok outs ∧ ∀ channel < layout.channels,
      Buffer.track outs channel = List.ofFn fun k : Fin (input channel).length =>
        Decibel.clip ((input channel)[k] * d.curve.gain
          ((followerFor p layout.rate channel).volumeAt (input channel)
            (if k + d.latency < (input channel).length then k + d.latency
              else (input channel).length - 1))) := by
  have hd := isNew_of_setUp hnew
  obtain ⟨outs, -, hstream, -, htrack⟩ := hd.stream hcuts.hasShape
  refine ⟨outs, hstream, fun channel hc => ?_⟩
  rw [htrack channel hc, hcuts.track_eq channel hc, shapeAhead]
  congr 1
  funext k
  rw [shape]
  split
  · rfl
  · -- past the last sample the volume stays as it is
    have hk := k.isLt
    rw [Follower.volumeAt_of_le _ (by omega), Follower.volumeAt_of_le _ (by omega)]

/-- A stream of three samples in three pieces, one of them empty, through a lookahead of
two. -/
theorem stream_of_three_pieces :
    ∃ d : Device, setUp { attacks := [0.0], decays := [0.0], delay := 0.25 } (.perSample 1 8) =
        .ok d ∧
      d.latency = 2 ∧
      ∃ outs, d.stream [⟨[[0.5]], some 7⟩, ⟨[[]], none⟩, ⟨[[0.25, -1.0]], none⟩] = .ok outs ∧
        ∀ channel < 1, Buffer.track outs channel =
          List.ofFn fun k : Fin 3 => Decibel.clip ([0.5, 0.25, -1.0][k] * d.curve.gain
            ((followerFor { attacks := [0.0], decays := [0.0], delay := 0.25 } 8 channel).volumeAt
              [0.5, 0.25, -1.0] (if k + d.latency < 3 then k + d.latency else 2))) := by
  have hok : (setUp (N := Float32) { attacks := [0.0], decays := [0.0], delay := 0.25 }
      (.perSample 1 8)).toOption.isSome = true := by
    decide +kernel
  obtain ⟨d, hsome⟩ := Option.isSome_iff_exists.mp hok
  have hd := eq_ok_of_toOption hsome
  have hlat : d.latency = 2 := by
    rw [(isNew_of_setUp hd).latency_eq]
    decide +kernel
  have hcuts : Cuts (Layout.perSample 1 8).channels (fun _ => ([0.5, 0.25, -1.0] : List Float32))
      [⟨[[0.5]], some 7⟩, ⟨[[]], none⟩, ⟨[[0.25, -1.0]], none⟩] := by
    refine ⟨?_, ?_, fun channel hc => ?_⟩
    · simp [Buffer.channels, Layout.perSample]
    · simp [Buffer.isWellFormed, Buffer.length]
    · obtain rfl : channel = 0 := Nat.lt_one_iff.mp hc
      rfl
  obtain ⟨outs, hstream, htrack⟩ := stream_of_cuts hd hcuts
  exact ⟨d, hd, hlat, outs, hstream, htrack⟩

end Device

end Compander
