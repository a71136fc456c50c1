import Compander.Buffer

/-!
# Interleaving

Equally long planes come back from their interleaved samples, and interleaved samples from their
planes:

* `Buffer.getElem?_deal`, `Buffer.separate_eq` — where the samples of a channel come from, if
  frame after frame is dealt out;
* `Buffer.getElem?_interleave` — where they go;
* `Buffer.length_of_mem_separate` — planes that were separated are equally long;
* `Buffer.separate_interleave`, `Buffer.interleave_separate` — separating undoes interleaving,
  and interleaving undoes separating as far as there are full frames;
* `Buffer.interleave_map` — samples can be changed before or after.

Both ways are proved place by place: the sample of a channel in a frame is at the place that the
frame times the number of channels, plus the channel, comes to. Dealing is a loop, and what it
has dealt out so far is the invariant of `Buffer.getElem?_deal`.
-/

namespace Compander.Buffer

variable {α β : Type}

/-! ## Lists -/

/-- A filter that leaves nothing out keeps every place, so what is at a place is what was kept
of what was there. -/
theorem getElem?_filterMap_of_isSome {keep : α → Option β} {items : List α}
    (h : ∀ item ∈ items, (keep item).isSome) (place : Nat) :
    (items.filterMap keep)[place]? = items[place]?.bind keep := by
  induction items generalizing place with
  | nil => rfl
  | cons item items ih =>
    obtain ⟨kept, hkept⟩ := Option.isSome_iff_exists.mp (h item (List.mem_cons_self ..))
    rw [List.filterMap_cons_some hkept]
    cases place with
    | zero => exact hkept.symm
    | succ place => exact ih (fun other ho => h other (List.mem_cons_of_mem _ ho)) place

/-- A place in rows of one length, set one after another, is a line and a column. -/
theorem getElem?_flatMap_of_length {row : α → List β} {items : List α} {width column : Nat}
    (h : ∀ item ∈ items, (row item).length = width) (hc : column < width) (line : Nat) :
    (items.flatMap row)[line * width + column]? =
      items[line]?.bind fun item => (row item)[column]? := by
  induction items generalizing line with
  | nil => rfl
  | cons item items ih =>
    have hfirst := h item (List.mem_cons_self ..)
    rw [List.flatMap_cons]
    cases line with
    | zero =>
      rw [Nat.zero_mul, Nat.zero_add, List.getElem?_append_left (hfirst ▸ hc)]
      rfl
    | succ line =>
      have hplace : (line + 1) * width + column = width + (line * width + column) := by
        rw [Nat.succ_mul]
        omega
      rw [hplace, ← hfirst, List.getElem?_append_right (Nat.le_add_right ..),
        Nat.add_sub_cancel_left,
        hfirst]
      exact ih (fun other ho => h other (List.mem_cons_of_mem _ ho)) line

/-! ## Separating -/

section separate

variable {samples : List α} {channel channels frame : Nat}

/-- A full frame has a sample of each channel, so the place of any of them is before the
end. -/
theorem place_lt (hf : frame < samples.length / channels) (hc : channel < channels) :
    frame * channels + channel < samples.length :=
  calc
    frame * channels + channel < (frame + 1) * channels := by rw [Nat.succ_mul]; omega
    _ ≤ samples.length / channels * channels := Nat.mul_le_mul_right channels hf
    _ ≤ samples.length := Nat.div_mul_le_self ..

/-- Dealing full frames out leaves the number of planes, since each frame has a sample for
each. -/
theorem length_deal {frames : Nat} {planes : List (Array α)}
    (hfull : frames * channels ≤ samples.length) (hplanes : planes.length = channels) :
    (deal channels frames samples planes).length = channels := by
  induction frames generalizing samples planes with
  | zero => exact hplanes
  | succ frames ih =>
    rw [Nat.succ_mul] at hfull
    rw [deal]
    apply ih
    · rw [List.length_drop]
      omega
    · rw [List.length_zipWith, List.length_take, hplanes]
      omega

/-- Dealing full frames out gives each plane the samples that are its own. -/
theorem getElem?_deal {frames : Nat} {planes : List (Array α)} {plane : Array α}
    (hfull : frames * channels ≤ samples.length) (hc : channel < channels)
    (hplane : planes[channel]? = some plane) :
    (deal channels frames samples planes)[channel]?.map Array.toList =
      some (plane.toList ++ (List.range frames).filterMap fun frame =>
        samples[frame * channels + channel]?) := by
  induction frames generalizing samples planes plane with
  | zero => rw [deal, hplane, List.range_zero, List.filterMap_nil, List.append_nil, Option.map_some]
  | succ frames ih =>
    rw [Nat.succ_mul] at hfull
    have hlt : channel < samples.length := by omega
    have hdealt : (List.zipWith Array.push planes (samples.take channels))[channel]? =
        some (plane.push samples[channel]) := by
      rw [List.getElem?_zipWith_eq_some]
      refine ⟨plane, samples[channel], hplane, ?_, rfl⟩
      rw [List.getElem?_take_of_lt hc, List.getElem?_eq_getElem hlt]
    have hrest : frames * channels ≤ (samples.drop channels).length := by
      rw [List.length_drop]
      omega
    have hshift (frame : Nat) : (samples.drop channels)[frame * channels + channel]? =
        samples[(frame + 1) * channels + channel]? := by
      rw [List.getElem?_drop]
      congr 1
      rw [Nat.succ_mul]
      omega
    have hfirst : samples[0 * channels + channel]? = some samples[channel] := by
      rw [Nat.zero_mul, Nat.zero_add, List.getElem?_eq_getElem hlt]
    have hrow : (List.range (frames + 1)).filterMap
        (fun frame => samples[frame * channels + channel]?) = samples[channel] ::
          (List.range frames).filterMap fun frame =>
            samples[(frame + 1) * channels + channel]? := by
      rw [List.range_succ_eq_map, List.filterMap_cons, hfirst, List.filterMap_map]
      rfl
    simp only [deal, ih hrest hdealt, hshift, hrow, Array.toList_push, List.append_assoc,
      List.singleton_append]

/-- The planes as a table of places, without the loop that fills them. -/
theorem separate_eq (samples : List α) (channels : Nat) :
    separate samples channels = (List.range channels).map fun channel =>
      (List.range (samples.length / channels)).filterMap fun frame =>
        samples[frame * channels + channel]? := by
  have hfull := Nat.div_mul_le_self samples.length channels
  apply List.ext_getElem?
  intro channel
  rw [separate, List.getElem?_map, List.getElem?_map]
  rcases Nat.lt_or_ge channel channels with hc | hc
  · rw [getElem?_deal hfull hc (List.getElem?_replicate_of_lt hc), List.getElem?_range hc,
      Array.toList_empty, List.nil_append, Option.map_some]
  · have hlength := length_deal hfull (List.length_replicate (n := channels) (a := (#[] : Array α)))
    rw [List.getElem?_eq_none (Nat.le_trans (Nat.le_of_eq hlength) hc),
      List.getElem?_eq_none (by rwa [List.length_range]), Option.map_none, Option.map_none]

theorem length_separate (samples : List α) (channels : Nat) :
    (separate samples channels).length = channels := by
  rw [separate_eq, List.length_map, List.length_range]

/-- Planes that were separated have a sample of each full frame, and so are equally long. -/
theorem length_of_mem_separate {plane : List α} (h : plane ∈ separate samples channels) :
    plane.length = samples.length / channels := by
  rw [separate_eq] at h
  obtain ⟨channel, hchannel, rfl⟩ := List.mem_map.mp h
  have hc := List.mem_range.mp hchannel
  rw [List.filterMap_length_eq_length.mpr, List.length_range]
  intro frame hframe
  rw [List.getElem?_eq_getElem (place_lt (List.mem_range.mp hframe) hc)]
  rfl

/-- The samples of a separated plane, each from its place in the frames. -/
theorem getElem?_separate (samples : List α) (hc : channel < channels) :
    ∃ plane, (separate samples channels)[channel]? = some plane ∧
      ∀ frame < samples.length / channels,
        plane[frame]? = samples[frame * channels + channel]? := by
  refine ⟨_, by rw [separate_eq, List.getElem?_map, List.getElem?_range hc]; rfl,
    fun frame hf => ?_⟩
  rw [getElem?_filterMap_of_isSome, List.getElem?_range hf]
  · rfl
  · intro frame hframe
    rw [List.getElem?_eq_getElem (place_lt (List.mem_range.mp hframe) hc)]
    rfl

end separate

/-! ## Interleaving -/

section interleave

variable {planes : List (List α)} {frames channel frame : Nat}

theorem interleave_eq (planes : List (List α)) (frames : Nat) :
    interleave planes frames =
      (List.range frames).flatMap fun frame => planes.filterMap fun plane => plane[frame]? := by
  simp only [interleave, List.filterMap_map, Function.comp_def, List.getElem?_toArray]

/-- Samples can be changed before or after they are interleaved, since interleaving does not
look at them. -/
theorem interleave_map (f : α → β) (planes : List (List α)) (frames : Nat) :
    interleave (planes.map (·.map f)) frames = (interleave planes frames).map f := by
  simp only [interleave_eq, List.map_flatMap, List.map_filterMap, List.filterMap_map,
    Function.comp_def, List.getElem?_map]

/-- Every frame before the end has a sample of each plane, if the planes are equally long. -/
theorem isSome_of_frame (hplanes : ∀ plane ∈ planes, plane.length = frames) (hf : frame < frames) :
    ∀ plane ∈ planes, (plane[frame]?).isSome := by
  intro plane hplane
  rw [List.getElem?_eq_getElem (hplanes plane hplane ▸ hf)]
  rfl

theorem length_frame (hplanes : ∀ plane ∈ planes, plane.length = frames) (hf : frame < frames) :
    (planes.filterMap fun plane => plane[frame]?).length = planes.length :=
  List.filterMap_length_eq_length.mpr (isSome_of_frame hplanes hf)

theorem length_interleave (hplanes : ∀ plane ∈ planes, plane.length = frames) :
    (interleave planes frames).length = frames * planes.length := by
  rw [interleave_eq, List.length_flatMap, List.map_congr_left fun frame hf =>
    length_frame hplanes (List.mem_range.mp hf), List.map_const', List.sum_replicate_nat,
    List.length_range]

/-- The samples of a channel are one frame apart, and the channel says where in the frame they
are. -/
theorem getElem?_interleave (hplanes : ∀ plane ∈ planes, plane.length = frames)
    (hc : channel < planes.length) (hf : frame < frames) :
    (interleave planes frames)[frame * planes.length + channel]? =
      planes[channel]?.bind fun plane => plane[frame]? := by
  rw [interleave_eq, getElem?_flatMap_of_length _ hc, List.getElem?_range hf]
  · exact getElem?_filterMap_of_isSome (isSome_of_frame hplanes hf) channel
  · exact fun frame hframe => length_frame hplanes (List.mem_range.mp hframe)

/-- **Interleaving.** Equally long planes come back from their interleaved samples, if there
is a plane at all: without one the frames could not be counted. -/
theorem separate_interleave (hplanes : ∀ plane ∈ planes, plane.length = frames)
    (hpos : 0 < planes.length) : separate (interleave planes frames) planes.length = planes := by
  have hframes : (interleave planes frames).length / planes.length = frames := by
    rw [length_interleave hplanes, Nat.mul_div_cancel _ hpos]
  apply List.ext_getElem (length_separate _ _)
  intro channel hchannel hc
  obtain ⟨plane, hplane, hsamples⟩ := getElem?_separate (interleave planes frames) hc
  have hlength := length_of_mem_separate (List.mem_of_getElem? hplane)
  rw [(List.getElem?_eq_some_iff.mp hplane).2]
  rw [hframes] at hsamples hlength
  apply List.ext_getElem?
  intro frame
  rcases Nat.lt_or_ge frame frames with hf | hf
  · rw [hsamples frame hf, getElem?_interleave hplanes hc hf, List.getElem?_eq_getElem hc]
    rfl
  · rw [List.getElem?_eq_none (hlength ▸ hf),
      List.getElem?_eq_none (hplanes _ (List.getElem_mem hc) ▸ hf)]

/-- Interleaved samples come back from their planes, as far as they fill frames. -/
theorem interleave_separate (samples : List α) {channels : Nat} (hpos : 0 < channels) :
    interleave (separate samples channels) (samples.length / channels) =
      samples.take (samples.length / channels * channels) := by
  have hplanes : ∀ plane ∈ separate samples channels, plane.length = samples.length / channels :=
    fun plane => length_of_mem_separate
  have hlength := length_interleave hplanes
  rw [length_separate] at hlength
  apply List.ext_getElem?
  intro place
  rcases Nat.lt_or_ge place (samples.length / channels * channels) with hplace | hplace
  · -- a place is a channel of a frame
    have hf : place / channels < samples.length / channels := Nat.div_lt_of_lt_mul (by
      rwa [Nat.mul_comm] at hplace)
    have hc : place % channels < channels := Nat.mod_lt place hpos
    have hsplit : place / channels * channels + place % channels = place := Nat.div_add_mod' ..
    obtain ⟨plane, hplane, hsamples⟩ := getElem?_separate samples hc
    have hinterleave := getElem?_interleave hplanes (by rwa [length_separate]) hf
    rw [length_separate, hsplit, hplane] at hinterleave
    rw [hinterleave, List.getElem?_take_of_lt hplace, Option.bind_some, hsamples _ hf, hsplit]
  · have htake := List.length_take_le (samples.length / channels * channels) samples
    rw [List.getElem?_eq_none (hlength ▸ hplace), List.getElem?_eq_none (Nat.le_trans htake hplace)]

end interleave

end Compander.Buffer
